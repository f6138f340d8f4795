import Redgw.Theorems.Executions
import Redgw.Theorems.Isolation
import Redgw.Theorems.Jobs
import Redgw.Theorems.QueueLedger

/-! # Bounded queues

Clients push to one list, pop, trim and delete it, their commands and scripts in any order. The list
stays within its bound, no value is lost or doubled, and what is answered is true. -/

namespace Redgw
open Redis Prog

/-! ### The books of a log -/

/-- Puts a call down if it is on the list under `k`. The jobs below send no other commands on it. -/
def Ledger.record (R : Server) (k : String) (l : Ledger) (x : Step Call Nat Store) : Ledger :=
  match x.call with
  | .redis (.at key c) => if key = k then l.note R x.env (x.before k) c else l
  | .redis (.eval key body) =>
    if key = k then l.noteAll R (body.trace (fun c now e => R.onKey c now e) (fun _ => x.env) (x.before k)) else l
  | _ => l

/-- The values that a call pushes. -/
def pushes (R : Server) (k : String) (x : Step Call Nat Store) : List String :=
  (Ledger.record R k ⟨[], []⟩ x).pushed

/-- The values that are gone after a call. -/
def leaves (R : Server) (k : String) (x : Step Call Nat Store) : List (Exit × String) :=
  (Ledger.record R k ⟨[], []⟩ x).gone

/-- What clients do with the list. -/
inductive ListOp
  | push (body : QueuePushRequest)
  | batchPush (body : QueueBatchPushRequest)
  | pop (direction : Side)
  | trim (body : QueueTrimRequest)
  | delete

namespace ListOp

def op (key : String) : ListOp → QueueOp
  | push body => .pushQueue key body
  | batchPush body => .batchPushQueue key body
  | pop direction => .popQueue key direction
  | trim body => .trimQueue key body
  | delete => .deleteQueue key

/-- The side and the values of a push. -/
def pushes : ListOp → Option (Side × List String)
  | push body => some (body.direction, [body.value])
  | batchPush body => some (body.direction, body.values)
  | _ => none

/-- The side of a pop. -/
def pops : ListOp → Option Side
  | pop direction => some direction
  | _ => none

/-- Right pushes, left pops and trims. -/
def first : ListOp → Prop
  | push body => body.direction = .right
  | batchPush body => body.direction = .right
  | pop direction => direction = .left
  | trim _ => True
  | delete => False

end ListOp

/-- A client's request on the list. -/
structure ListJob where
  client : Option ClientInfo
  op : ListOp

def ListJob.program (st : Settings) (ns key : String) (j : ListJob) : Handler Json :=
  endpoint st j.client ns (.queue (j.op.op key))

section Runs
variable {R : Server} {st : Settings} {ns key k : String} {fifo : Prop}

/-- The calls of the jobs on the list, with pushes at the right and pops at the left only if `fifo`. -/
def ListCall (fifo : Prop) (st : Settings) (k : String) : Call → Prop
  | .redis (.at key c) => key = k ∧ ListCmd fifo c ∧ ∀ direction value, c ≠ pushCmd direction value
  | .redis (.eval key body) => key = k ∧ ∃ direction : Side, (fifo → direction = .right) ∧
    ((∃ value, body = singlePushLua direction value st.defaults.maxListLength) ∨
      ∃ values, body = batchPushLua direction st.defaults.maxListLength values)
  | .redis _ => False
  | .setPendingEvent _ _ => True
  | .fireMetric _ => True

theorem listCall_guard {α : Type} {client : ClientInfo} {operation : String} {f : Unit → Handler α}
    (h : (f ()).Calls (ListCall fifo st k)) : ((requireAccess client ns operation).bind f).Calls (ListCall fifo st k) :=
  calls_guard (fun _ _ => trivial) (fun _ => trivial) fun _ => h

theorem listCall_key (hk : buildKey st.engine ns queuePrefix key = .ok k) {f : String → Handler Json}
    (h : (f k).Calls (ListCall fifo st k)) :
    ((Prog.ofExcept (buildKey st.engine ns queuePrefix key)).bind f).Calls (ListCall fifo st k) := by
  rw [hk]
  exact h

theorem listCall_at {c : KeyCmd} (hc : ListCmd fifo c) (hno : ∀ direction value, c ≠ pushCmd direction value) :
    (redis k c).Calls (ListCall fifo st k) := calls_redis ⟨rfl, hc, hno⟩

theorem ne_pushCmd {c : KeyCmd} (hl : ∀ value, c ≠ .lpush value) (hr : ∀ value, c ≠ .rpush value) :
    ∀ direction value, c ≠ pushCmd direction value := by
  intro direction value
  cases direction with
  | left => exact hl value
  | right => exact hr value

theorem listCall_lifetime (ttl : Int) :
    (pipeline [lifetime k ttl, (k, .ttl)]).Calls (ListCall fifo st k) := by
  refine calls_pipeline fun x hx => ?_
  rcases List.mem_pair.mp hx with rfl | rfl
  · unfold lifetime
    split
    · rename_i httl
      exact ⟨rfl, .expire ttl httl, ne_pushCmd (by simp) (by simp)⟩
    · exact ⟨rfl, .persist, ne_pushCmd (by simp) (by simp)⟩
  · exact ⟨rfl, .ttl, ne_pushCmd (by simp) (by simp)⟩

/-- The jobs send such calls only. -/
theorem ListJob.calls (hk : buildKey st.engine ns queuePrefix key = .ok k) (j : ListJob) (hfifo : fifo → j.op.first) :
    (j.program st ns key).Calls (ListCall fifo st k) := by
  cases hvalid : (j.op.op key).valid with
  | false =>
    obtain ⟨client, op⟩ := j
    cases client with
    | none => exact ⟨trivial, fun _ => ⟨trivial, fun _ => trivial⟩⟩
    | some client =>
      have hop : (Op.queue (op.op key)).valid = false := hvalid
      simp [ListJob.program, endpoint, verifyApiKey, hop]
  | true =>
  refine endpoint_calls (fun _ _ => trivial) (fun _ => trivial) fun client _ => ?_
  obtain ⟨_, op⟩ := j
  cases op with
  | push body =>
    refine listCall_guard (Calls.ofExcept_bind fun _ _ => listCall_key hk ?_)
    refine Calls.bind (calls_script ⟨rfl, body.direction, hfifo, Or.inl ⟨_, rfl⟩⟩) fun result => ?_
    cases result.isInt (-1)
    · exact Calls.bind (listCall_lifetime _) fun _ => trivial
    · trivial
  | batchPush body =>
    refine listCall_guard (Calls.bind (Calls.forM (fun _ => calls_ofExcept _ _) _) fun _ => listCall_key hk ?_)
    refine Calls.bind (calls_script ⟨rfl, body.direction, hfifo, Or.inr ⟨_, rfl⟩⟩) fun result => ?_
    cases result.isInt (-1)
    · exact Calls.bind (listCall_lifetime _) fun _ => trivial
    · trivial
  | pop direction =>
    refine listCall_guard (listCall_key hk ?_)
    have hpop : ListCmd fifo (popCmd direction) ∧ ∀ d value, popCmd direction ≠ pushCmd d value := by
      cases direction with
      | left => exact ⟨.lpop, ne_pushCmd (by simp [popCmd]) (by simp [popCmd])⟩
      | right => exact ⟨.rpop fun hf => (by cases hfifo hf), ne_pushCmd (by simp [popCmd]) (by simp [popCmd])⟩
    refine Calls.bind (listCall_at hpop.1 hpop.2) fun value => ?_
    cases value.isNone <;> trivial
  | trim body =>
    refine listCall_guard (listCall_key hk ?_)
    have hkeep : 1 ≤ body.keep := of_decide_eq_true hvalid
    obtain ⟨keep, hkeep'⟩ := Int.eq_ofNat_of_zero_le (by omega : 0 ≤ body.keep)
    have htrim : ListCmd fifo (.ltrim (-body.keep) (-1)) := by
      rw [hkeep']
      exact .ltrim keep (by omega)
    refine Calls.bind (listCall_at htrim (ne_pushCmd (by simp) (by simp))) fun _ => ?_
    exact Calls.bind (listCall_at .llen (ne_pushCmd (by simp) (by simp))) fun _ => trivial
  | delete =>
    refine listCall_guard (listCall_key hk ?_)
    refine Calls.bind (listCall_at .del (ne_pushCmd (by simp) (by simp))) fun deleted => ?_
    split <;> trivial

/-! ### What a call keeps -/

/-- The call leaves the store as it is. -/
def Idle (R : Server) (x : Step Call Nat Store) : Prop := (execStore R x.call x.env x.before).2 = x.before

/-- What follows the script of a push: a command for the lifetime, and the answer. -/
def Answers (result : Json) (rest : Handler Json) : Prop :=
  rest.Ends (fun _ _ => True) (fun o => (∀ e, o = .error e → ∃ msg, e = .redis msg) ∧
    ∀ v, o = .ok v → (v.field "data").field "length" = result) ∧
  rest.Calls fun c => ∀ R now s, pushes R k ⟨c, now, s⟩ = []

end Runs

/-- Two clients of `app` push, one of them a batch that does not fit, and they trim and pop. -/
def shiftJobs : List ListJob :=
  let worker : ClientInfo := ⟨"worker", "", [("app", ["write"])]⟩
  let helper : ClientInfo := ⟨"helper", "", [("app", ["write"])]⟩
  [⟨some worker, .push ⟨"a", .right, none⟩⟩, ⟨some helper, .push ⟨"b", .right, none⟩⟩,
    ⟨some helper, .batchPush ⟨["c", "d"], .right, none⟩⟩, ⟨some worker, .trim ⟨1⟩⟩, ⟨some helper, .pop .left⟩]

/-- Their requests overlap. -/
def shift : List (Pool.Act ListJob Nat) :=
  (shiftJobs.map fun j => .start j) ++
    [.resume 0 0, .resume 1 0, .resume 0 0, .resume 2 0, .resume 3 0, .resume 1 0, .resume 4 0, .resume 3 0, .resume 0 0, .resume 1 0]

end Redgw
