import Redgw.Lib.Deque
import Redgw.Redis.Lists
import Redgw.Routers.Queue

/-! # The books of a list

Every command on a list is put down in books: what it pushes, and what goes because it is popped, trimmed
away, deleted, or found expired. The books conserve the values whatever the commands are. -/

namespace Redgw
open Redis Prog

/-- The ways in which a value leaves a list. -/
inductive Exit
  | popped
  | trimmed
  | deleted
  | expired
deriving DecidableEq

/-- The values that were pushed, and those that are gone, in order. -/
structure Ledger where
  pushed : List String
  gone : List (Exit × String)

def Ledger.books (l : Ledger) (e : Option Entry) : Books Exit String := ⟨elements e, l.pushed, l.gone⟩

/-- The values of an expired list that the command writes over. -/
def overwritten (R : Server) (now : Nat) (e : Option Entry) (c : KeyCmd) : List String :=
  if live now e = none ∧ (R.onKey c now e).2 ≠ e then elements e else []

/-- The values that a command pushes. -/
def pushedIn : KeyCmd → List String
  | .lpush value | .rpush value => [value]
  | _ => []

/-- The values that a command takes from the list that it finds, each with its way. -/
def takenBy (now : Nat) (e : Option Entry) : KeyCmd → List (Exit × String)
  | .lpop => ((found now e).take 1).map fun v => (.popped, v)
  | .rpop => (found now e).getLast?.toList.map fun v => (.popped, v)
  -- an index that Redis refuses trims nothing
  | .ltrim start _ =>
    ((found now e).take (if int64 start then (found now e).length - (-start).toNat else 0)).map fun v => (.trimmed, v)
  | .del => (found now e).map fun v => (.deleted, v)
  | _ => []

/-- The values that are gone from the entry `e` after a command. -/
def goneBy (R : Server) (now : Nat) (e : Option Entry) (c : KeyCmd) : List (Exit × String) :=
  (overwritten R now e c).map (fun v => (.expired, v)) ++ takenBy now e c

/-- Puts a command down that finds the entry `e`. -/
def Ledger.note (R : Server) (now : Nat) (e : Option Entry) (c : KeyCmd) (l : Ledger) : Ledger :=
  ⟨l.pushed ++ pushedIn c, l.gone ++ goneBy R now e c⟩

/-- The commands on a list, with pushes at the right and pops at the left only if `fifo`. -/
inductive ListCmd (fifo : Prop) : KeyCmd → Prop
  | lpush (value : String) (h : ¬fifo) : ListCmd fifo (.lpush value)
  | rpush (value : String) : ListCmd fifo (.rpush value)
  | lpop : ListCmd fifo .lpop
  | rpop (h : ¬fifo) : ListCmd fifo .rpop
  | ltrim (keep : Nat) (h : 1 ≤ keep) : ListCmd fifo (.ltrim (-keep) (-1))
  | llen : ListCmd fifo .llen
  | del : ListCmd fifo .del
  | expire (ttl : Int) (h : 0 < ttl) : ListCmd fifo (.expire ttl)
  | persist : ListCmd fifo .persist
  | ttl : ListCmd fifo .ttl

section Notes
variable {R : Server} {now : Nat} {e : Option Entry} {start : List String} {fifo : Prop} {l : Ledger}

/-- The key holds a list, whose books conserve the values, and keep their order if `fifo`. -/
structure Good (start : List String) (fifo : Prop) (l : Ledger) (e : Option Entry) : Prop where
  list : IsList e
  conserves : (l.books e).Conserves start
  inOrder : fifo → (l.books e).InOrder start

/-- Values go from the left. -/
theorem Good.takeLeft (h : Good start fifo l e) (way : Exit) (n : Nat) {e' : Option Entry} (hlist : IsList e')
    (helem : elements e' = (elements e).drop n) :
    Good start fifo { l with gone := l.gone ++ ((elements e).take n).map fun v => (way, v) } e' := by
  have hbooks : Ledger.books { l with gone := l.gone ++ ((elements e).take n).map fun v => (way, v) } e' =
      (l.books e).takeLeft way n := by
    rw [Ledger.books, helem]
    rfl
  refine ⟨hlist, ?_, fun hf => ?_⟩
  · rw [hbooks]
    exact h.conserves.takeLeft way n
  · rw [hbooks]
    exact (h.inOrder hf).takeLeft way n

theorem Good.pushRight (h : Good start fifo l e) (value : String) {e' : Option Entry} (hlist : IsList e')
    (helem : elements e' = elements e ++ [value]) : Good start fifo { l with pushed := l.pushed ++ [value] } e' := by
  have hbooks : Ledger.books { l with pushed := l.pushed ++ [value] } e' = (l.books e).pushRight value := by
    rw [Ledger.books, helem]
    rfl
  refine ⟨hlist, ?_, fun hf => ?_⟩
  · rw [hbooks]
    exact h.conserves.pushRight value
  · rw [hbooks]
    exact (h.inOrder hf).pushRight value

theorem Good.pushLeft (h : Good start fifo l e) (hf : ¬fifo) (value : String) {e' : Option Entry} (hlist : IsList e')
    (helem : elements e' = value :: elements e) : Good start fifo { l with pushed := l.pushed ++ [value] } e' := by
  have hbooks : Ledger.books { l with pushed := l.pushed ++ [value] } e' = (l.books e).pushLeft value := by
    rw [Ledger.books, helem]
    rfl
  refine ⟨hlist, ?_, fun hf' => absurd hf' hf⟩
  rw [hbooks]
  exact h.conserves.pushLeft value

theorem Good.takeRight (h : Good start fifo l e) (hf : ¬fifo) (way : Exit) {value : String} {e' : Option Entry} (hlist : IsList e')
    (helem : elements e = elements e' ++ [value]) :
    Good start fifo { l with gone := l.gone ++ [(way, value)] } e' := by
  have hbooks : Ledger.books { l with gone := l.gone ++ [(way, value)] } e' = (l.books e).takeRight way := by
    unfold Ledger.books Books.takeRight
    dsimp only
    rw [helem, List.dropLast_concat, List.getLast?_concat]
    rfl
  refine ⟨hlist, ?_, fun hf' => absurd hf' hf⟩
  rw [hbooks]
  exact h.conserves.takeRight way

/-! ### Commands -/

/-- The entry has not expired. -/
def Fresh (now : Nat) (e : Option Entry) : Prop := live now e = e

theorem found_fresh (h : Fresh now e) : found now e = elements e := by
  unfold found
  rw [h]

/-- Puts the commands of a script down, each with the entry that it finds. -/
def Ledger.noteAll (R : Server) (l : Ledger) (steps : List (Step KeyCmd Nat (Option Entry))) : Ledger :=
  steps.foldl (fun l x => l.note R x.env x.before x.call) l

/-- A list after pushes from one side, one by one. -/
def pushedOn (direction : Side) (values xs : List String) : List String :=
  match direction with
  | .left => values.reverse ++ xs
  | .right => xs ++ values

theorem pushedOn_length (direction : Side) (values xs : List String) :
    (pushedOn direction values xs).length = xs.length + values.length := by
  cases direction <;> simp [pushedOn, Nat.add_comm]

theorem pushedOn_cons (direction : Side) (value : String) (values xs : List String) :
    pushedOn direction values (pushedOn direction [value] xs) = pushedOn direction (value :: values) xs := by
  cases direction <;> simp [pushedOn]

theorem fresh_deadlineOf (v : Value) : Fresh now (some ⟨v, deadlineOf now e⟩) := live_deadlineOf now e v

/-- One push, from either side. -/
theorem onKey_push (hL : R.Lists) (now : Nat) (he : IsList e) (direction : Side) (value : String) :
    R.onKey (pushCmd direction value) now e = (.ok (.int ((found now e).length + 1)),
      some ⟨.list (pushedOn direction [value] (found now e)), deadlineOf now e⟩) := by
  cases direction with
  | left => exact hL.lpush value now e he
  | right => exact hL.rpush value now e he

/-- One pop, from either side. -/
theorem onKey_pop (hL : R.Lists) (now : Nat) (he : IsList e) (direction : Side) :
    (found now e = [] ∧ R.onKey (popCmd direction) now e = (.ok .null, e)) ∨
    ∃ value rest, found now e = pushedOn direction [value] rest ∧
      R.onKey (popCmd direction) now e = (.ok (.str value), listEntry rest (deadlineOf now e)) := by
  cases direction with
  | left =>
    cases hf : found now e with
    | nil => exact Or.inl ⟨rfl, hL.lpopNothing now e he hf⟩
    | cons value rest => exact Or.inr ⟨value, rest, rfl, hL.lpop now e value rest he hf⟩
  | right =>
    rcases List.eq_nil_or_concat' (found now e) with hf | ⟨rest, value, hf⟩
    · exact Or.inl ⟨hf, hL.rpopNothing now e he hf⟩
    · exact Or.inr ⟨value, rest, hf, hL.rpop now e value rest he hf⟩

theorem isList_pushedOn {direction : Side} {value : String} {values xs : List String} {d : Option Nat} :
    IsList (some ⟨.list (pushedOn direction (value :: values) xs), d⟩) := by
  refine Or.inr ⟨_, d, fun h => ?_, rfl⟩
  have hlen := pushedOn_length direction (value :: values) xs
  rw [h] at hlen
  simp at hlen

theorem run_pushAllLua (hL : R.Lists) (now : Nat) (he : IsList e) (direction : Side) (values : List String) :
    (pushAllLua direction values).run (fun c now e => R.onKey c now e) (fun _ => now) e =
      (.ok .null, if values = [] then e
        else some ⟨.list (pushedOn direction values (found now e)), deadlineOf now e⟩) := by
  induction values generalizing e with
  | nil => rfl
  | cons value values ih =>
    have hpush := onKey_push hL now he direction value
    have hfresh : Fresh now (some ⟨.list (pushedOn direction [value] (found now e)), deadlineOf now e⟩) := fresh_deadlineOf _
    have hrest := ih (e := some ⟨.list (pushedOn direction [value] (found now e)), deadlineOf now e⟩) isList_pushedOn
    have hstep : (pushAllLua direction (value :: values)).run (fun c now e => R.onKey c now e) (fun _ => now) e =
        (pushAllLua direction values).run (fun c now e => R.onKey c now e) (fun _ => now)
          (some ⟨.list (pushedOn direction [value] (found now e)), deadlineOf now e⟩) := by
      show (((luaCall (pushCmd direction value)).bind fun _ => pushAllLua direction values).run _ _ e) = _
      simp only [luaCall, Prog.ask, call_bind, pure_bind, run_call, hpush]
    rw [hstep, hrest, if_neg (List.cons_ne_nil value values)]
    have hdl : deadlineOf now (some ⟨.list (pushedOn direction [value] (found now e)), deadlineOf now e⟩) = deadlineOf now e := by
      rw [deadlineOf, hfresh]
      rfl
    have hfound : found now (some ⟨.list (pushedOn direction [value] (found now e)), deadlineOf now e⟩) =
        pushedOn direction [value] (found now e) := found_fresh hfresh
    rw [hdl, hfound]
    cases values with
    | nil => rfl
    | cons value' values => rw [if_neg (List.cons_ne_nil value' values), pushedOn_cons]

theorem run_singlePushLua (hL : R.Lists) (he : IsList e) (direction : Side) (value : String) (maxLen : Int) :
    (singlePushLua direction value maxLen).run (fun c now e => R.onKey c now e) (fun _ => now) e =
      if maxLen ≤ (found now e).length then (.ok (.int (-1)), e)
      else (.ok (.int ((found now e).length + 1)),
        some ⟨.list (pushedOn direction [value] (found now e)), deadlineOf now e⟩) := by
  have hlen := hL.llen now e he
  have hpush := onKey_push hL now he direction value
  unfold singlePushLua luaCall
  simp only [bind_eq, Prog.ask, call_bind, pure_bind, run_call, hlen, luaNumber]
  split
  · rfl
  · rw [run_call, hpush]
    rfl

theorem run_batchPushLua (hL : R.Lists) (he : IsList e) (direction : Side) (values : List String) (maxLen : Int) :
    (batchPushLua direction maxLen values).run (fun c now e => R.onKey c now e) (fun _ => now) e =
      if maxLen < (found now e).length + values.length then (.ok (.int (-1)), e)
      else (.ok (.int ((found now e).length + values.length)), if values = [] then e
        else some ⟨.list (pushedOn direction values (found now e)), deadlineOf now e⟩) := by
  have hlen := hL.llen now e he
  have hall := run_pushAllLua hL now he direction values
  unfold batchPushLua luaCall
  simp only [bind_eq, Prog.ask, call_bind, pure_bind, run_call, hlen]
  by_cases hfull : maxLen < luaNumber (.int (found now e).length) + values.length
  · rw [if_pos hfull, if_pos (show maxLen < ((found now e).length : Int) + values.length from hfull)]
    rfl
  · rw [if_neg hfull, if_neg (show ¬maxLen < ((found now e).length : Int) + values.length from hfull), run_bind_ok hall]
    rfl

end Notes

end Redgw
