import Redgw.Lib.Linear
import Redgw.System

/-! # First calls

No request ends before it has sent a command: what the middlewares send follows every end but an error that Redis has
replied, and there is no such error before the first command. -/

namespace Redgw
open Redis Prog Pool

/-- The error is not one that Redis has replied. -/
def Unfailed {α : Type} (x : Except Exn α) : Prop := ∀ msg, x ≠ .error (.redis msg)

/-- The handler has made a call before it ends in an error that Redis has replied. -/
def Asks {α : Type} (p : Handler α) : Prop := p.Ends (fun _ _ => False) Unfailed

section Checks
variable {α β : Type} {st : Settings} {ns typePrefix key : String}

theorem unfailed_ok (a : α) : Unfailed (.ok a : Except Exn α) := nofun

theorem unfailed_http {status : Nat} {code message : String} : Unfailed (.error (.http status code message) : Except Exn α) := nofun

theorem Unfailed.bind {x : Except Exn α} {f : α → Except Exn β} (hx : Unfailed x) (hf : ∀ a, Unfailed (f a)) :
    Unfailed (x >>= f) := by
  cases x with
  | ok a => exact hf a
  | error e => exact fun msg h => hx msg (congrArg _ (Except.error.inj h))

theorem Unfailed.ite {c : Prop} [Decidable c] {x y : Except Exn α} (hx : Unfailed x) (hy : Unfailed y) :
    Unfailed (if c then x else y) := by
  split
  · exact hx
  · exact hy

theorem Unfailed.mapM {f : α → Except Exn β} (hf : ∀ a, Unfailed (f a)) (xs : List α) : Unfailed (xs.mapM f) := by
  induction xs with
  | nil => exact unfailed_ok []
  | cons x xs ih =>
    rw [List.mapM_cons]
    exact (hf x).bind fun y => ih.bind fun ys => unfailed_ok _

theorem unfailed_buildKey : Unfailed (buildKey st.engine ns typePrefix key) := by
  unfold buildKey
  cases st.engine with
  | python =>
    refine Unfailed.bind (.ite (unfailed_ok _) unfailed_http) fun _ => Unfailed.bind (.ite (unfailed_ok _) unfailed_http) fun _ => ?_
    exact unfailed_ok _
  | rust =>
    dsimp only
    split
    · exact unfailed_ok _
    · exact .ite unfailed_http unfailed_http

theorem unfailed_validateNs : Unfailed (validateNs st.engine ns) := by
  unfold validateNs
  cases st.engine with
  | python => exact .ite (unfailed_ok _) unfailed_http
  | rust =>
    dsimp only
    split
    · exact unfailed_ok _
    · exact unfailed_http

theorem unfailed_validateKey : Unfailed (validateKey st.engine key) := by
  unfold validateKey
  cases st.engine with
  | python => exact .ite (unfailed_ok _) unfailed_http
  | rust =>
    dsimp only
    split
    · exact unfailed_ok _
    · exact unfailed_http

theorem unfailed_typePrefix {typeName : String} : Unfailed (resolveTypePrefix typeName) := by
  unfold resolveTypePrefix
  split
  · exact unfailed_ok _
  · exact unfailed_http

theorem unfailed_scanPattern {ns typeName : Option String} {pattern : String} : Unfailed (buildScanPattern ns typeName pattern) := by
  unfold buildScanPattern
  refine .ite unfailed_http ?_
  dsimp only
  split
  · exact unfailed_typePrefix.bind fun _ => unfailed_ok _
  · exact unfailed_ok _

theorem unfailed_buildKeys (keys : List String) : Unfailed (buildKeys st ns typePrefix keys) :=
  Unfailed.mapM (fun _ => unfailed_buildKey) keys

theorem unfailed_queueItems (items : List (String × β)) (queue : String → β → List (String × KeyCmd)) :
    Unfailed (queueItems st ns typePrefix items queue) := by
  refine (Unfailed.mapM (fun x => ?_) items).bind fun _ => unfailed_ok _
  exact unfailed_buildKey.bind fun _ => unfailed_ok _

theorem unfailed_size {value label : String} : Unfailed (checkValueSize st value label) := .ite unfailed_http (unfailed_ok _)

end Checks

section Asks
variable {α β : Type} {st : Settings} {client : ClientInfo} {ns typePrefix key : String}

theorem Asks.bind {p : Handler α} {f : α → Handler β} (hp : Asks p) (hf : ∀ a, Asks (f a)) : Asks (p.bind f) :=
  Ends.bind hp (fun a _ => hf a) fun _ he msg h => he msg (congrArg _ (Except.error.inj h))

theorem asks_call {c : Call} {k : c.Ret → Handler α} : Asks (.call c k) := nofun

theorem asks_check {x : Except Exn α} {f : α → Handler β} (hx : Unfailed x) (hf : ∀ a, Asks (f a)) :
    Asks ((Prog.ofExcept x).bind f) :=
  Asks.bind (Ends.ofExcept hx) hf

theorem asks_forM {f : β → Handler PUnit} (hf : ∀ x, Asks (f x)) (xs : List β) : Asks (xs.forM f) := by
  induction xs with
  | nil => exact unfailed_ok _
  | cons x xs ih => exact (hf x).bind fun _ => ih

theorem asks_size {value label : String} : Asks (Prog.ofExcept (checkValueSize st value label)) := Ends.ofExcept unfailed_size

theorem unfailed_sizes (data : Dict String) : Unfailed (checkDictValuesSize st data) := by
  unfold checkDictValuesSize
  induction data.items with
  | nil => exact unfailed_ok _
  | cons x xs ih => exact unfailed_size.bind fun _ => ih

theorem asks_guard {operation : String} {f : Unit → Handler α} (h : Asks (f ())) :
    Asks ((requireAccess client ns operation).bind f) := by
  unfold requireAccess
  split
  · exact h
  · exact asks_call

theorem asks_refuse {c : Prop} [Decidable c] {status : Nat} {code message : String} {f : Unit → Handler α} (hf : ∀ u, Asks (f u)) :
    Asks (if c then (throw (.http status code message) : Handler Unit).bind f else f ()) := by
  split
  · exact unfailed_http
  · exact hf ()

theorem asks_pipeline {cs : List (String × KeyCmd)} {f : List Json → Handler α} (hf : ∀ vs, Asks (f vs)) :
    Asks ((pipeline cs).bind f) := by
  cases cs with
  | nil => exact hf []
  | cons x cs => exact asks_call

theorem KvOp.asks (o : KvOp) : Asks (o.handle st client ns) := by
  cases o with
  | batchGetKv body => exact asks_guard (asks_check (unfailed_buildKeys _) fun _ => asks_call)
  | batchSetKv body =>
    exact asks_guard ((asks_forM (fun _ => asks_size) _).bind fun _ => asks_check (unfailed_queueItems _ _) fun _ => asks_call)
  | setKv key body => exact asks_guard (asks_check unfailed_size fun _ => asks_check unfailed_buildKey fun _ => asks_call)
  | _ => exact asks_guard (asks_check unfailed_buildKey fun _ => asks_call)

theorem MapOp.asks (o : MapOp) : Asks (o.handle st client ns) := by
  cases o with
  | batchGetMap body => exact asks_guard (asks_check (unfailed_buildKeys _) fun _ => asks_pipeline fun _ => unfailed_ok _)
  | batchSetMap body =>
    refine asks_guard ((asks_forM (fun _ => Ends.ofExcept (unfailed_sizes _)) _).bind fun _ => ?_)
    exact asks_check (unfailed_queueItems _ _) fun _ => asks_call
  | setMap key body =>
    exact asks_guard (asks_check (unfailed_sizes _) fun _ => asks_check unfailed_buildKey fun _ => asks_call)
  | setMapField key field body =>
    refine asks_guard (asks_check unfailed_size fun _ => asks_check unfailed_buildKey fun _ => ?_)
    dsimp only
    split
    · exact asks_call
    · exact asks_call
  | _ => exact asks_guard (asks_check unfailed_buildKey fun _ => asks_call)

theorem QueueOp.asks (o : QueueOp) : Asks (o.handle st client ns) := by
  cases o with
  | batchPushQueue key body =>
    exact asks_guard ((asks_forM (fun _ => asks_size) _).bind fun _ => asks_check unfailed_buildKey fun _ => asks_call)
  | pushQueue key body => exact asks_guard (asks_check unfailed_size fun _ => asks_check unfailed_buildKey fun _ => asks_call)
  | _ => exact asks_guard (asks_check unfailed_buildKey fun _ => asks_call)

theorem GroupOp.asks (o : GroupOp) : Asks (o.handle st client ns) := by
  cases o with
  | batchGetGroup body => exact asks_guard (asks_check (unfailed_buildKeys _) fun _ => asks_pipeline fun _ => unfailed_ok _)
  | batchAddGroup body =>
    refine asks_guard ((asks_forM (fun _ => asks_forM (fun _ => asks_size) _) _).bind fun _ => ?_)
    exact asks_check (unfailed_queueItems _ _) fun _ => asks_call
  | addGroup key body =>
    exact asks_guard ((asks_forM (fun _ => asks_size) _).bind fun _ => asks_check unfailed_buildKey fun _ => asks_call)
  | interGroups body | unionGroups body | diffGroups body => exact asks_guard (asks_check (unfailed_buildKeys _) fun _ => asks_call)
  | _ => exact asks_guard (asks_check unfailed_buildKey fun _ => asks_call)

theorem RankOp.asks (o : RankOp) : Asks (o.handle st client ns) := by
  cases o with
  | batchGetRank body => exact asks_guard (asks_check (unfailed_buildKeys _) fun _ => asks_pipeline fun _ => unfailed_ok _)
  | batchAddRank key body =>
    refine asks_guard ((asks_forM (fun x => asks_check unfailed_size fun _ => ?_) _).bind fun _ => asks_check unfailed_buildKey fun _ => asks_call)
    split
    · exact unfailed_http
    · exact unfailed_ok _
  | addRank key body | incrRank key body =>
    exact asks_guard (asks_check unfailed_size fun _ => asks_refuse fun _ => asks_check unfailed_buildKey fun _ => asks_call)
  | _ => exact asks_guard (asks_check unfailed_buildKey fun _ => asks_call)

theorem EventOp.asks (o : EventOp) : Asks (o.handle st client ns) := by
  cases o with
  | batchPublishEvent key body =>
    refine asks_guard ((asks_forM (fun _ => Ends.ofExcept (unfailed_sizes _)) _).bind fun _ => ?_)
    exact asks_check unfailed_buildKey fun _ => asks_pipeline fun _ => unfailed_ok _
  | publishEvent key body =>
    exact asks_guard (asks_check (unfailed_sizes _) fun _ => asks_check unfailed_buildKey fun _ => asks_call)
  | readEvents key lastId count =>
    refine asks_guard (asks_check unfailed_buildKey fun _ => asks_refuse fun _ => ?_)
    dsimp only
    split <;> exact asks_call
  | ackEvents key group body =>
    refine asks_guard ((asks_forM (fun sid => ?_) _).bind fun _ => asks_check unfailed_buildKey fun _ => asks_call)
    split
    · exact unfailed_http
    · exact unfailed_ok _
  | _ => exact asks_guard (asks_check unfailed_buildKey fun _ => asks_call)

theorem Op.asks (o : Op) : Asks (o.handle st client ns) := by
  cases o with
  | kv o => exact o.asks
  | map o => exact o.asks
  | queue o => exact o.asks
  | group o => exact o.asks
  | rank o => exact o.asks
  | event o => exact o.asks
  | pubsub o =>
    cases o with
    | publishMessage channel body =>
      refine asks_guard (asks_check unfailed_validateNs fun _ => asks_check unfailed_validateKey fun _ => ?_)
      exact asks_check unfailed_size fun _ => asks_call

theorem endpoint_asks {client : Option ClientInfo} {o : Op} : Asks (endpoint st client ns o) := by
  cases client with
  | none => exact asks_call
  | some c =>
    cases hv : o.valid with
    | false =>
      rw [endpoint, hv]
      exact nofun
    | true =>
      rw [endpoint, hv]
      exact o.asks

theorem asks_admin {f : Unit → Handler α} (h : Asks (f ())) : Asks ((requireAdmin client).bind f) := by
  unfold requireAdmin
  split
  · exact h
  · exact asks_call

theorem asks_deleteBatches (keys : List (List String)) (deleted : Int) : Asks (deleteBatches keys deleted) := by
  cases keys with
  | nil => exact unfailed_ok _
  | cons batch rest => exact asks_call

theorem AdminOp.asks (o : AdminOp) : Asks (o.handle st client) := by
  cases o with
  | listKeys ns typeName pattern scan =>
    show Asks (Redgw.listKeys st client ns typeName pattern scan)
    unfold Redgw.listKeys
    cases filterOr ns with
    | none => exact asks_check unfailed_scanPattern fun _ => unfailed_ok _
    | some ns =>
      refine asks_check unfailed_validateNs fun _ => asks_guard (asks_check unfailed_scanPattern fun _ => unfailed_ok _)
  | getStats limit memory keys => exact unfailed_ok _
  | bulkDeleteKeys ns typeName pattern dryRun scanIter =>
    refine asks_admin (asks_check unfailed_validateNs fun _ => asks_check unfailed_scanPattern fun _ => ?_)
    dsimp only
    split
    · exact unfailed_ok _
    · exact (asks_deleteBatches _ _).bind fun _ => unfailed_ok _
  | keyInfo ns typeName key =>
    exact asks_guard (asks_check unfailed_typePrefix fun _ => asks_check unfailed_buildKey fun _ => asks_call)
  | _ => exact asks_admin (asks_check unfailed_typePrefix fun _ => asks_check unfailed_buildKey fun _ => asks_call)

theorem adminEndpoint_asks {client : Option ClientInfo} {o : AdminOp} : Asks (adminEndpoint st client o) := by
  cases client with
  | none => exact asks_call
  | some c =>
    cases hv : o.valid with
    | false =>
      rw [adminEndpoint, hv]
      exact nofun
    | true =>
      rw [adminEndpoint, hv]
      exact o.asks

end Asks

/-- What the middlewares send begins with the count of the request. -/
theorem bookkeeping_ne_nil {st : Settings} {v : Seen} {x : Except Exn Json} (hx : Unfailed x) (pending : Pending) :
    v.bookkeeping st x pending ≠ [] := by
  have hrecorded : (metricsMiddleware (v.behaviour x pending)).recorded = [(Response.of x).status] := by
    rcases x with (⟨status, code, message⟩ | _ | msg) | body
    case error.redis => exact absurd rfl (hx msg)
    all_goals rcases pending with _ | ⟨event, errorCode⟩ <;> rfl
  unfold Seen.bookkeeping metricsCommands
  rw [hrecorded]
  simp [recordRequest]

theorem served_begun {st : Settings} {v : Seen} {body : Handler Json} (hbody : Asks body) {f : Response → Handler α} :
    ¬Ended ((served st v body).bind f) := by
  have hend : ∀ x : Except Exn Json, Unfailed x → ¬Ended (((sendAll (v.bookkeeping st x none)).bind fun _ => .pure (.of x)).bind f) := by
    intro x hx
    have hsent : v.bookkeeping st x none ≠ [] := bookkeeping_ne_nil hx none
    obtain ⟨y, cs, hcs⟩ := List.exists_cons_of_ne_nil hsent
    rw [hcs]
    exact id
  cases body with
  | pure a => exact hend (.ok a) hbody
  | raise e => exact hend (.error e) hbody
  | call c k => exact id

/-- Every job has a command to send. -/
theorem Job.begun (st : Settings) (j : Job) : ¬Ended (j.program st) := by
  cases j with
  | data q => exact served_begun endpoint_asks
  | admin q => exact served_begun adminEndpoint_asks
  | statusTick pid => exact id

end Redgw
