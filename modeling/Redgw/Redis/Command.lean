import Redgw.Redis.Store
import Redgw.Lib.Prog

/-! # Commands

The commands that the gateway sends, and what a server is for it: how it answers and rewrites one key
(`onKey`), how it answers the commands that read several, and how many receivers a message has. A
command reads and writes the keys it is given and no others. -/

namespace Redgw.Redis

/-- A decoded reply, or the text of a `ResponseError`. -/
abbrev Reply := Except String Json

/-- A command on one key. -/
inductive KeyCmd
  | get
  | set (value : String) (ex : Option Int) (nx : Bool)
  | setex (ttl : Int) (value : String)
  | del
  | exists
  | expire (ttl : Int)
  | persist
  | ttl
  | type
  | objectEncoding
  | strlen
  | incrby (delta : Int)
  | incrbyfloat (delta : Score)
  | hgetall
  | hget (field : String)
  | hset (fields : List (String × String))
  | hdel (field : String)
  | hlen
  | lpush (value : String)
  | rpush (value : String)
  | lpop
  | rpop
  | llen
  | lrange (start stop : Int)
  | ltrim (start stop : Int)
  | sadd (members : List String)
  | smembers
  | sismember (member : String)
  | srem (member : String)
  | scard
  | zcard
  | zadd (members : List (String × Score))
  | zrange (start stop : Int) (reverse : Bool)
  | zscore (member : String)
  | zrangebyscore (min max : Score)
  | zrem (member : String)
  | zincrby (delta : Score) (member : String)
  | zpop (max : Bool)
  | xadd (fields : List (String × String)) (maxlen : Int)
  | xlen
  | xrange (min : String) (count : Int)
  | xgroupCreate (group : String) (id : String) (mkstream : Bool)
  | xreadgroup (group consumer : String) (count : Int)
  | xack (group : String) (ids : List String)
  | xinfoStream
  | xinfoGroups

namespace KeyCmd

/-- The commands that are documented to write nothing. -/
def reads : KeyCmd → Bool
  | .get | .exists | .ttl | .type | .objectEncoding | .strlen | .hgetall | .hget _ | .hlen | .llen | .lrange .. | .smembers
  | .sismember _ | .scard | .zcard | .zrange .. | .zscore _ | .zrangebyscore .. | .xlen | .xrange .. | .xinfoStream
  | .xinfoGroups => true
  | _ => false

/-- The commands that write nothing but the bookkeeping of consumer groups. -/
def books : KeyCmd → Bool
  | .xreadgroup .. | .xack .. => true
  | _ => false

/-- The commands that take an element away. -/
def isPop : KeyCmd → Bool
  | .lpop | .rpop | .zpop _ => true
  | _ => false

/-- The command takes an element from values of this type. -/
def pops : KeyCmd → Value → Bool
  | .lpop, .list _ | .rpop, .list _ | .zpop _, .zset _ => true
  | _, _ => false

end KeyCmd

/-- A command that reads several keys and writes none. -/
inductive GatherCmd
  | mget
  | sinter
  | sunion
  | sdiff

/-- A Lua script on one key: a program over `redis.call(.., KEYS[1], ..)`. -/
abbrev Script := Prog KeyCmd (fun _ => Reply) String Json

inductive Cmd
  | at (key : String) (c : KeyCmd)
  | eval (key : String) (script : Script)
  | gather (g : GatherCmd) (keys : List String)
  | del (keys : List String)
  | publish (channel message : String)
  | multi (cs : List (String × KeyCmd))

namespace Cmd

/-- A transaction answers with the reply of each of its commands. -/
abbrev Ret : Cmd → Type
  | .multi _ => List Reply
  | _ => Reply

def keys : Cmd → List String
  | .at key _ => [key]
  | .eval key _ => [key]
  | .gather _ keys => keys
  | .del keys => keys
  | .publish _ _ => []
  | .multi cs => cs.map (·.1)

/-- Each part of the command satisfies `Q` on its key. -/
def Parts (Q : String → KeyCmd → Prop) : Cmd → Prop
  | .at key c => Q key c
  | .eval key body => body.Calls (Q key)
  | .gather _ _ => True
  | .del keys => ∀ k ∈ keys, Q k .del
  | .publish _ _ => True
  | .multi cs => ∀ x ∈ cs, Q x.1 x.2

end Cmd

structure Server where
  onKey : KeyCmd → Nat → Option Entry → Reply × Option Entry
  gather : GatherCmd → Nat → List (Option Entry) → Reply
  publish : String → String → Reply

namespace Server

variable (R : Server)

/-- A command on the entry of a key in the store. -/
def atKey (key : String) (c : KeyCmd) (now : Nat) (s : Store) : Reply × Store :=
  ((R.onKey c now (s key)).1, s.set key (R.onKey c now (s key)).2)

/-- The queued commands of a transaction, one after another. -/
def transact (now : Nat) : List (String × KeyCmd) → Store → List Reply × Store
  | [], s => ([], s)
  | (key, c) :: cs, s =>
    let (r, s₁) := R.atKey key c now s
    let (rs, s₂) := transact now cs s₁
    (r :: rs, s₂)

/-- `DEL` of several keys: how many of them there were. -/
def delete (now : Nat) (keys : List String) (s : Store) : Reply × Store :=
  let (rs, s') := R.transact now (keys.map fun k => (k, .del)) s
  let count := fun (n : Int) (r : Reply) => match r with
    | .ok (.int m) => n + m
    | _ => n
  (.ok (.int (rs.foldl count 0)), s')

/-- A script runs as one step. -/
def runScript (key : String) (script : Script) (now : Nat) (s : Store) : Reply × Store :=
  let (r, e) := script.run (fun c now e => R.onKey c now e) (fun _ => now) (s key)
  (r, s.set key e)

/-- The answer to a command at time `now`, and the store after it. -/
def exec : (c : Cmd) → Nat → Store → c.Ret × Store
  | .at key c, now, s => R.atKey key c now s
  | .eval key script, now, s => R.runScript key script now s
  | .gather g keys, now, s => (R.gather g now (keys.map s), s)
  | .del keys, now, s => R.delete now keys s
  | .publish channel message, _, s => (R.publish channel message, s)
  | .multi cs, now, s => R.transact now cs s

variable {R}

/-! ### A command touches only its keys -/

theorem atKey_ne {key k : String} {c : KeyCmd} {now : Nat} {s : Store} (h : k ≠ key) :
    (R.atKey key c now s).2 k = s k := Store.set_ne _ _ h

theorem atKey_self (key : String) (c : KeyCmd) (now : Nat) (s : Store) :
    (R.atKey key c now s).2 key = (R.onKey c now (s key)).2 := Store.set_self _ _ _

theorem transact_ne {now : Nat} {k : String} {cs : List (String × KeyCmd)} {s : Store}
    (h : ∀ x ∈ cs, k ≠ x.1) : (R.transact now cs s).2 k = s k := by
  induction cs generalizing s with
  | nil => rfl
  | cons x cs ih =>
    have hx := h x List.mem_cons_self
    have hcs := ih (s := (R.atKey x.1 x.2 now s).2) fun y hy => h y (List.mem_cons_of_mem _ hy)
    exact hcs.trans (atKey_ne hx)

theorem transact_append {now : Nat} {cs ds : List (String × KeyCmd)} {s : Store} :
    (R.transact now (cs ++ ds) s).2 = (R.transact now ds (R.transact now cs s).2).2 := by
  induction cs generalizing s with
  | nil => rfl
  | cons x cs ih => exact ih

theorem exec_ne {c : Cmd} {now : Nat} {s : Store} {k : String} (h : k ∉ c.keys) : (R.exec c now s).2 k = s k := by
  cases c with
  | «at» key c => exact atKey_ne (by simpa [Cmd.keys] using h)
  | eval key script => exact Store.set_ne _ _ (by simpa [Cmd.keys] using h)
  | gather g keys => rfl
  | del keys =>
    refine transact_ne fun x hx => ?_
    obtain ⟨k', hk', rfl⟩ := List.mem_map.mp hx
    rintro rfl
    exact h hk'
  | publish channel message => rfl
  | multi cs =>
    refine transact_ne fun x hx => ?_
    rintro rfl
    exact h (List.mem_map.mpr ⟨x, hx, rfl⟩)

/-- The two stores hold the same under the keys that satisfy `V`. -/
def Agree (V : String → Prop) (s t : Store) : Prop := ∀ k, V k → s k = t k

theorem agree_set {V : String → Prop} {s t : Store} (h : Agree V s t) (key : String) (e : Option Entry) :
    Agree V (s.set key e) (t.set key e) := fun k hk => by
  by_cases he : k = key
  · subst he
    simp
  · rw [Store.set_ne _ _ he, Store.set_ne _ _ he, h k hk]

theorem transact_agree {V : String → Prop} {now : Nat} {cs : List (String × KeyCmd)} {s t : Store}
    (hcs : ∀ x ∈ cs, V x.1) (h : Agree V s t) :
    (R.transact now cs s).1 = (R.transact now cs t).1 ∧ Agree V (R.transact now cs s).2 (R.transact now cs t).2 := by
  induction cs generalizing s t with
  | nil => exact ⟨rfl, h⟩
  | cons x cs ih =>
    have hx : s x.1 = t x.1 := h x.1 (hcs x List.mem_cons_self)
    have hstep : Agree V (R.atKey x.1 x.2 now s).2 (R.atKey x.1 x.2 now t).2 := by
      simp only [atKey, hx]
      exact agree_set h _ _
    obtain ⟨h₁, h₂⟩ := ih (fun y hy => hcs y (List.mem_cons_of_mem _ hy)) hstep
    refine ⟨?_, h₂⟩
    simp only [transact]
    rw [h₁]
    simp only [atKey, hx]

/-- A command answers alike on stores that agree on its keys, and leaves them in agreement. -/
theorem exec_agree {V : String → Prop} {c : Cmd} {now : Nat} {s t : Store} (hc : ∀ k ∈ c.keys, V k)
    (h : Agree V s t) : (R.exec c now s).1 = (R.exec c now t).1 ∧ Agree V (R.exec c now s).2 (R.exec c now t).2 := by
  cases c with
  | «at» key c =>
    have hk := h key (hc key List.mem_cons_self)
    simp only [exec, atKey, hk]
    exact ⟨trivial, agree_set h _ _⟩
  | eval key script =>
    have hk := h key (hc key List.mem_cons_self)
    simp only [exec, runScript, hk]
    exact ⟨trivial, agree_set h _ _⟩
  | gather g keys =>
    have hk : keys.map s = keys.map t := List.map_congr_left fun k hk => h k (hc k hk)
    simp only [exec, hk]
    exact ⟨trivial, h⟩
  | del keys =>
    have hV : ∀ x ∈ keys.map fun k => (k, KeyCmd.del), V x.1 := by
      intro x hx
      obtain ⟨k, hk, rfl⟩ := List.mem_map.mp hx
      exact hc k hk
    obtain ⟨h₁, h₂⟩ : (R.transact now _ s).1 = (R.transact now _ t).1 ∧ _ := transact_agree hV h
    simp only [exec, delete]
    exact ⟨by rw [h₁], h₂⟩
  | publish channel message => exact ⟨rfl, h⟩
  | multi cs => exact transact_agree (fun x hx => hc x.1 (List.mem_map.mpr ⟨x, hx, rfl⟩)) h

/-! ### What commands keep of entries -/

theorem transact_entries {E : String → Option Entry → Prop} {Q : String → KeyCmd → Prop} {now : Nat}
    (keep : ∀ k c, Q k c → ∀ e, E k e → E k (R.onKey c now e).2) {cs : List (String × KeyCmd)} (hcs : ∀ x ∈ cs, Q x.1 x.2)
    {s : Store} (hs : ∀ k, E k (s k)) (k : String) : E k ((R.transact now cs s).2 k) := by
  induction cs generalizing s with
  | nil => exact hs k
  | cons x cs ih =>
    refine ih (fun y hy => hcs y (List.mem_cons_of_mem _ hy)) (s := (R.atKey x.1 x.2 now s).2) fun k' => ?_
    by_cases h : k' = x.1
    · subst h
      rw [atKey_self]
      exact keep x.1 x.2 (hcs x List.mem_cons_self) _ (hs x.1)
    · rw [atKey_ne h]
      exact hs k'

/-- What each part of a command keeps of the entry of its key, the command keeps of every entry. -/
theorem exec_entries {E : String → Option Entry → Prop} {Q : String → KeyCmd → Prop} {now : Nat}
    (keep : ∀ k c, Q k c → ∀ e, E k e → E k (R.onKey c now e).2) {c : Cmd} (hc : c.Parts Q) {s : Store}
    (hs : ∀ k, E k (s k)) (k : String) : E k ((R.exec c now s).2 k) := by
  cases c with
  | «at» key c =>
    have hone : ∀ x ∈ [(key, c)], Q x.1 x.2 := by
      intro x hx
      rw [List.mem_singleton.mp hx]
      exact hc
    exact transact_entries keep hone hs k
  | eval key body =>
    by_cases h : k = key
    · subst h
      show E k (s.set k _ k)
      rw [Store.set_self]
      exact Prog.run_keeps (K := fun e e' => E k e → E k e') (fun _ => id) (fun _ _ _ h₁ h₂ he => h₂ (h₁ he))
        (fun c hc _ e => keep k c hc e) hc (s k) (hs k)
    · show E k (s.set key _ k)
      rw [Store.set_ne _ _ h]
      exact hs k
  | gather g ks => exact hs k
  | del ks =>
    refine transact_entries keep (fun x hx => ?_) hs k
    obtain ⟨k', hk', rfl⟩ := List.mem_map.mp hx
    exact hc k' hk'
  | publish channel message => exact hs k
  | multi cs => exact transact_entries keep hc hs k

end Server

/-- What the documentation of Redis promises of the commands that do not write data, and of pops. -/
structure Server.Lawful (R : Server) : Prop where
  /-- A command that is documented to write nothing writes nothing. -/
  reads : ∀ c, c.reads = true → ∀ now e, (R.onKey c now e).2 = e
  /-- Reading through a group and acknowledging touch the bookkeeping of groups only. -/
  books : ∀ c, c.books = true → ∀ now e, SameButGroups e (R.onKey c now e).2
  /-- `XGROUP CREATE` at a key that is there touches the bookkeeping of groups only. -/
  create : ∀ group id mk now e, (live now e).isSome → SameButGroups e (R.onKey (.xgroupCreate group id mk) now e).2
  /-- `XGROUP CREATE` at a missing key does nothing, or makes an empty stream that does not expire. -/
  createNew : ∀ group id mk now e, live now e = none → (R.onKey (.xgroupCreate group id mk) now e).2 = e ∨
    ∃ gs, (R.onKey (.xgroupCreate group id mk) now e).2 = some ⟨.stream ⟨[], ⟨0, 0⟩, gs⟩, none⟩
  /-- A pop at a missing key, or at one of another type, does nothing. -/
  popsNothing : ∀ c, c.isPop = true → ∀ now e, (∀ x, live now e = some x → c.pops x.value = false) →
    (R.onKey c now e).2 = e
  /-- A pop at a key of its type takes an element. -/
  popsElement : ∀ c now e x, live now e = some x → c.pops x.value = true → ¬ SameButGroups e (R.onKey c now e).2

end Redgw.Redis
