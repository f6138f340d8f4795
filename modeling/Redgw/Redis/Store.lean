import Redgw.Json

/-! # The data of a Redis server

A store maps keys to typed values, each with the time of its expiry if it has one. -/

namespace Redgw.Redis

/-- The id of a stream entry. -/
structure StreamId where
  ms : Nat
  seq : Nat
deriving DecidableEq, Repr

namespace StreamId

def lt (a b : StreamId) : Bool := decide (a.ms < b.ms) || (a.ms == b.ms && decide (a.seq < b.seq))
def le (a b : StreamId) : Bool := a == b || a.lt b
def render (a : StreamId) : String := s!"{a.ms}-{a.seq}"

end StreamId

/-- A consumer group: how far it has read, its consumers, and what it has delivered but not
    acknowledged, with the consumer it went to. -/
structure Group where
  name : String
  lastDelivered : StreamId
  consumers : List String
  pending : List (StreamId × String)
deriving DecidableEq

/-- A stream: its entries in id order, the last id it gave out, and its groups. -/
structure Stream where
  entries : List (StreamId × List (String × String))
  lastId : StreamId
  groups : List Group
deriving DecidableEq

inductive Value
  | str (s : String)
  | hash (fields : List (String × String))
  | list (xs : List String)
  | set (members : List String)
  | zset (members : List (String × Score))
  | stream (x : Stream)
deriving DecidableEq

/-- A value, and the time in milliseconds at which it expires. -/
structure Entry where
  value : Value
  deadline : Option Nat
deriving DecidableEq

def Store := String → Option Entry

namespace Store

def empty : Store := fun _ => none

def set (s : Store) (key : String) (e : Option Entry) : Store := fun k => if k = key then e else s k

@[simp] theorem set_self (s : Store) (key : String) (e : Option Entry) : s.set key e key = e := by
  simp [set]

theorem set_ne (s : Store) {key k : String} (e : Option Entry) (h : k ≠ key) : s.set key e k = s k := by
  simp [set, h]

@[simp] theorem set_same (s : Store) (key : String) : s.set key (s key) = s := by
  funext k
  by_cases h : k = key
  · subst h
    simp
  · rw [set_ne _ _ h]

end Store

def Entry.alive (now : Nat) (x : Entry) : Bool :=
  match x.deadline with
  | none => true
  | some d => decide (now < d)

/-- What a command at time `now` finds of an entry: an expired one is not there. -/
def live (now : Nat) (e : Option Entry) : Option Entry := e.filter (·.alive now)

/-- The two values are the same but for the consumer groups of a stream. -/
def Value.sameButGroups : Value → Value → Prop
  | .stream x, .stream y => x.entries = y.entries ∧ x.lastId = y.lastId
  | v, w => v = w

/-- The two entries exist or not alike, expire alike and hold the same data. -/
def SameButGroups : Option Entry → Option Entry → Prop
  | none, none => True
  | some x, some y => x.value.sameButGroups y.value ∧ x.deadline = y.deadline
  | _, _ => False

namespace SameButGroups

theorem value_refl (v : Value) : v.sameButGroups v := by
  cases v <;> simp [Value.sameButGroups]

theorem value_trans {u v w : Value} (h₁ : u.sameButGroups v) (h₂ : v.sameButGroups w) : u.sameButGroups w := by
  cases u <;> cases v <;> simp only [Value.sameButGroups, reduceCtorEq] at h₁ <;>
    cases w <;> simp only [Value.sameButGroups, reduceCtorEq] at h₂ ⊢ <;> simp_all

theorem refl (e : Option Entry) : SameButGroups e e := by
  cases e with
  | none => trivial
  | some x => exact ⟨value_refl _, rfl⟩

theorem trans {a b c : Option Entry} (h₁ : SameButGroups a b) (h₂ : SameButGroups b c) : SameButGroups a c := by
  cases a <;> cases b <;> simp only [SameButGroups] at h₁ <;> cases c <;> simp only [SameButGroups] at h₂ ⊢
  exact ⟨value_trans h₁.1 h₂.1, h₁.2.trans h₂.2⟩

theorem live_none {e e' : Option Entry} (h : SameButGroups e e') {now : Nat} (hl : live now e' = none) :
    live now e = none := by
  cases e with
  | none => rfl
  | some x =>
    cases e' with
    | none => exact h.elim
    | some y =>
      have ha : x.alive now = y.alive now := by simp only [Entry.alive, h.2]
      simp only [live, Option.filter_some, ha] at hl ⊢
      split at hl
      · cases hl
      · rename_i hn
        rw [if_neg hn]

end SameButGroups

end Redgw.Redis
