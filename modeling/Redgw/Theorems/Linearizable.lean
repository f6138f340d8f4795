import Redgw.Lib.Linear
import Redgw.Redis.Lifetimes
import Redgw.Theorems.FirstCalls
import Redgw.Theorems.Isolation
import Redgw.Theorems.Jobs
import Redgw.Theorems.PlanRuns

/-! # Requests in parallel

Most requests of the data plane use one command, or one transaction, and read at most a TTL besides. However such
requests are served side by side, each is answered as if it was served alone at one moment, but for the TTL that it
reports; requests that only read may take part. The gateway's own keys are left out: every request moves them. -/

namespace Redgw
open Redis Prog Fallible Pool

/-- The stores hold the same but for the gateway's own keys. -/
abbrev SameData : Store → Store → Prop := Server.Agree fun k => ¬Own k

/-- The same end, but for the TTL in the metadata. -/
def SameButTtl (x y : Except Exn Json) : Prop :=
  x = y ∨ ∃ data ns key type ttl ttl', x = .ok (ok data ns key type ttl) ∧ y = .ok (ok data ns key type ttl')

/-- What the request of a job does, served alone at one moment. The other jobs count as doing nothing. -/
def Job.atOnce (R : Server) (st : Settings) : Job → Nat → Store → Except Exn Json × Store
  | .data q, now, s => Alone R now (endpoint st q.client q.ns q.op) s
  | _, _, s => (.ok .null, s)

/-! ### Requests of one step -/

def KvOp.oneStep : KvOp → Bool
  | touchKv _ _ => false
  | _ => true

/-- `set_map_field` is a transaction if it sets a lifetime. -/
def MapOp.oneStep (st : Settings) : MapOp → Bool
  | setMapField _ _ body => decide (0 < resolveTtl st body.ttl)
  | batchGetMap _ | touchMap _ _ => false
  | _ => true

def QueueOp.oneStep : QueueOp → Bool
  | popQueue _ _ | rangeQueue _ _ _ | lenQueue _ | deleteQueue _ => true
  | _ => false

def GroupOp.oneStep : GroupOp → Bool
  | batchGetGroup _ | addGroup _ _ | touchGroup _ _ => false
  | _ => true

def RankOp.oneStep : RankOp → Bool
  | batchGetRank _ | batchAddRank _ _ | addRank _ _ | touchRank _ _ => false
  | _ => true

def EventOp.oneStep : EventOp → Bool
  | batchPublishEvent _ _ | touchEvent _ _ | streamInfo _ => false
  | _ => true

/-- The request uses one command or one transaction, besides reading a TTL. -/
def Op.oneStep (st : Settings) : Op → Bool
  | kv o => o.oneStep
  | map o => o.oneStep st
  | queue o => o.oneStep
  | group o => o.oneStep
  | rank o => o.oneStep
  | event o => o.oneStep
  | pubsub _ => true

def AdminOp.watches : AdminOp → Bool
  | listKeys .. | keyInfo .. | getStats .. | adminAuditOrigin .. => true
  | setTtl .. | bulkDeleteKeys .. | deleteKey .. => false

def Job.oneStep (st : Settings) : Job → Bool
  | .data q => q.op.oneStep st
  | _ => false

/-- The job leaves all keys but the gateway's own as they are. -/
def Job.watches : Job → Bool
  | .data q => decide (q.op.use = .reads)
  | .admin q => q.op.watches
  | .statusTick _ => true

/-! ### Calls that leave data alone -/

section Calls
variable {R : Server} {st : Settings}

theorem KeyOf.not_own {engine : Engine} {ns k : String} (h : KeyOf engine ns k) : ¬Own k := by
  obtain ⟨p, hp, key, hk⟩ := h
  obtain ⟨κ, hκ⟩ := storage_prefixKind hp
  exact (storedAs_build hκ hk).not_own

theorem agree_own {cs : List (String × KeyCmd)} (h : ∀ x ∈ cs, Own x.1) (now : Nat) (s : Store) :
    SameData (R.transact now cs s).2 s :=
  fun _ hk => Server.transact_ne fun x hx he => hk (he ▸ h x hx)

theorem agree_fireMetric (reason : String) (now : Nat) (s : Store) : SameData (execStore R (.fireMetric reason) now s).2 s :=
  agree_own (fun x hx => Or.inl (recordAuthFailure_metricsWrite x hx).book.internal) now s

theorem agree_ownWrite {k : String} {c : KeyCmd} (h : OwnWrite k c) (now : Nat) (s : Store) :
    SameData (execStore R (.redis (.at k c)) now s).2 s :=
  fun _ hk => Server.atKey_ne fun he => hk (he ▸ h.own)

/-- What only reads leaves every key alone. -/
theorem exec_reads (hR : R.Lawful) {c : Cmd} (hc : Uses .reads c) (now : Nat) (s : Store) : (R.exec c now s).2 = s := by
  have keep : ∀ k c, c.reads = true → ∀ e, e = s k → (R.onKey c now e).2 = s k := fun k c hc e he => by rw [hR.reads c hc, he]
  have hparts : c.Parts fun _ c => c.reads = true := by
    cases c with
    | del keys => cases hc
    | gather g keys => trivial
    | publish channel message => trivial
    | _ => exact hc
  exact funext fun k => Server.exec_entries (E := fun k e => e = s k) keep hparts (fun _ => rfl) k

def gatewaySpec (R : Server) (st : Settings) : Spec Nat Store Job (Except Exn Json) where
  same := SameData
  trans h₁ h₂ k hk := (h₁ k hk).trans (h₂ k hk)
  apply := Job.atOnce R st
  congr j now s t h := by
    cases j with
    | admin q => exact ⟨rfl, h⟩
    | statusTick pid => exact ⟨rfl, h⟩
    | data q =>
      have hcalls : (endpoint st q.client q.ns q.op).Calls (Reaches (KeyOf st.engine q.ns)) := endpoint_reaches st q.client q.ns q.op
      refine run_related (E := SameData) (fun c hc x s t hst => ?_) hcalls (fun _ => now) h
      cases c with
      | redis c => exact Server.exec_agree (fun k hk => KeyOf.not_own (hc k hk)) hst
      | setPendingEvent event errorCode => exact ⟨rfl, hst⟩
      | fireMetric reason =>
        refine ⟨rfl, fun k hk => ?_⟩
        rw [agree_fireMetric reason x s k hk, agree_fireMetric reason x t k hk, hst k hk]

/-- The job does what the handler does alone. -/
def Job.Does (R : Server) (st : Settings) (j : Job) (p : Handler Json) : Prop := ∀ now s, j.atOnce R st now s = Alone R now p s

/-- If the job does what the handler does alone, the handler does so at one point. -/
def OneStep (R : Server) (st : Settings) (j : Job) (p : Handler Json) : Prop :=
  j.Does R st p → Once (execStore R) (gatewaySpec R st) (fun _ => SameButTtl) j p

variable {j : Job} {p : Handler Json}

theorem SameButTtl.refl (x : Except Exn Json) : SameButTtl x x := Or.inl rfl

theorem SameData.refl (s : Store) : SameData s s := fun _ _ => rfl

theorem ok_inj {data data' ttl ttl' : Json} {ns ns' key key' type type' : String} (h : ok data ns key type ttl = ok data' ns' key' type' ttl') :
    data = data' ∧ ns = ns' ∧ key = key' ∧ type = type' ∧ ttl = ttl' := by
  simpa [ok] using h

theorem SameButTtl.trans {x y z : Except Exn Json} (h : SameButTtl x y) (h' : SameButTtl y z) : SameButTtl x z := by
  rcases h with rfl | ⟨data, ns, key, type, ttl, ttl', rfl, rfl⟩
  · exact h'
  · rcases h' with rfl | ⟨data', ns', key', type', ttl₁, ttl₂, hy, rfl⟩
    · exact Or.inr ⟨_, _, _, _, _, _, rfl, rfl⟩
    · obtain ⟨rfl, rfl, rfl, rfl, -⟩ := ok_inj (Except.ok.inj hy)
      exact Or.inr ⟨_, _, _, _, _, _, rfl, rfl⟩

theorem sameButTtl_error {x : Except Exn Json} {e : Exn} (h : SameButTtl x (.error e)) : x = .error e := by
  rcases h with rfl | ⟨data, ns', key', type, ttl', ttl'', -, hbody⟩
  · rfl
  · cases hbody

theorem after_ofExcept {x y : Except Exn Json} (h : SameButTtl x y) :
    After (execStore R) (gatewaySpec R st) (fun _ => SameButTtl) j y (Prog.ofExcept x) := by
  cases x <;> exact h

theorem after_silent (hp : p.Calls fun _ => False) (now : Nat) (s : Store) :
    After (execStore R) (gatewaySpec R st) (fun _ => SameButTtl) j (Alone R now p s).1 p := by
  cases p with
  | pure a => exact .refl _
  | raise e => exact .refl _
  | call c k => exact hp.1.elim

theorem oneStep_silent (hp : p.Calls fun _ => False) : OneStep R st j p := by
  intro hj
  refine Once.of_after (fun now s => ?_) fun now s => ?_
  · show SameData s (j.atOnce R st now s).2
    rw [hj, Alone, run_silent hp]
    exact .refl _
  · show After _ _ _ j (j.atOnce R st now s).1 p
    rw [hj]
    exact after_silent hp now s

/-- One call, and the answer is made of its reply. -/
theorem oneStep_call {c : Call} {k : c.Ret → Handler Json} (hk : ∀ r, (k r).Calls fun _ => False) : OneStep R st j (.call c k) := by
  intro hj
  refine Or.inr fun now s => ⟨?_, ?_⟩
  · show SameData (execStore R c now s).2 (j.atOnce R st now s).2
    rw [hj, Alone, run_call, run_silent (hk _)]
    exact .refl _
  · show After _ _ _ j (j.atOnce R st now s).1 _
    rw [hj, Alone, run_call]
    exact after_silent (hk _) now _

theorem oneStep_ofExcept {α : Type} {x : Except Exn α} {f : α → Handler Json} (h : ∀ a, x = .ok a → OneStep R st j (f a)) :
    OneStep R st j ((Prog.ofExcept x).bind f) := by
  cases x with
  | ok a => exact h a rfl
  | error e => exact oneStep_silent trivial

/-- A refusal leaves a metric and an event for the audit line. -/
theorem oneStep_refused (event code reason : String) (e : Exn) :
    OneStep R st j (.call (.setPendingEvent event code) fun _ => .call (.fireMetric reason) fun _ => .raise e) := by
  intro hj
  refine Once.of_after (fun now s k hk => ?_) fun now s => ?_
  · show s k = (j.atOnce R st now s).2 k
    rw [hj]
    exact (agree_fireMetric reason now s k hk).symm
  · show After _ _ _ j (j.atOnce R st now s).1 _
    rw [hj]
    exact ⟨fun x u => .refl u, fun _ _ => ⟨agree_fireMetric reason, fun _ _ => .refl _⟩⟩

theorem oneStep_guard {client : ClientInfo} {ns operation : String} {f : Unit → Handler Json} (h : OneStep R st j (f ())) :
    OneStep R st j ((requireAccess client ns operation).bind f) := by
  by_cases ha : checkAccess client ns operation = true
  · rw [requireAccess, if_pos ha]
    exact h
  · rw [requireAccess, if_neg ha]
    exact oneStep_refused _ _ _ _

/-- Refused by its permission. -/
theorem alone_refused (event code reason : String) (e : Exn) (now : Nat) (s : Store) :
    Alone R now (.call (.setPendingEvent event code) fun _ => .call (.fireMetric reason) fun _ => .raise e : Handler Json) s =
      (.error e, (execStore R (.fireMetric reason) now s).2) := rfl

end Calls

/-! ### Plans of one step -/

/-- One command or one transaction; or one command and the TTL, of which the data takes no notice. -/
def Plan.OneStep (p : Plan) : Prop :=
  p.sending = .transaction ∨ (∃ x, p.sending = .oneByOne ∧ p.commands = [x]) ∨
    ∃ k c, p.sending = .pipeline ∧ p.commands = [(k, c), (k, .ttl)] ∧ ∀ v w w', p.data [v, w] = p.data [v, w']

section Plans
variable {R : Server} {st : Settings} {j : Job} {ns : String} {p : Plan}

theorem program_transaction (hp : p.sending = .transaction) :
    p.program ns = .call (.redis (.multi p.commands)) fun rs => Prog.ofExcept (p.answer ns (replies rs)) := by
  unfold Plan.program Plan.send
  rw [hp]
  rfl

theorem program_oneByOne {k : String} {c : KeyCmd} (hp : p.sending = .oneByOne) (hcs : p.commands = [(k, c)]) :
    p.program ns = .call (.redis (.at k c)) fun r => Prog.ofExcept (p.answer ns (replies [r])) := by
  unfold Plan.program Plan.send
  rw [hp, hcs]
  refine congrArg (Prog.call (Call.redis (.at k c))) (funext fun r => ?_)
  cases r <;> rfl

theorem program_pipeline {k : String} {c d : KeyCmd} (hp : p.sending = .pipeline) (hcs : p.commands = [(k, c), (k, d)]) :
    p.program ns = .call (.redis (.at k c)) fun r => .call (.redis (.at k d)) fun r' =>
      Prog.ofExcept (p.answer ns (replies [r, r'])) := by
  unfold Plan.program Plan.send
  rw [hp, hcs]
  rfl

/-- The TTL is read when others may have changed it. -/
theorem answer_ttl (hdata : ∀ v w w', p.data [v, w] = p.data [v, w']) (r : Reply) (w w' : Json) :
    SameButTtl (p.answer ns (replies [r, .ok w])) (p.answer ns (replies [r, .ok w'])) := by
  cases r with
  | error msg => exact .refl _
  | ok v =>
    have hreplies : ∀ w, replies [.ok v, .ok w] = .ok [v, w] := fun w => rfl
    rw [hreplies, hreplies, Plan.answer, Plan.answer, hdata v w w']
    cases p.data [v, w'] with
    | error e => exact .refl _
    | ok d => exact Or.inr ⟨_, _, _, _, _, _, rfl, rfl⟩

theorem oneStep_plan (hR : R.Lawful) (hL : R.Lifetimes) (hp : p.OneStep) : OneStep R st j (p.program ns) := by
  rcases hp with hp | ⟨⟨k, c⟩, hp, hcs⟩ | ⟨k, c, hp, hcs, hdata⟩
  · rw [program_transaction hp]
    exact oneStep_call fun rs => calls_ofExcept _ _
  · rw [program_oneByOne hp hcs]
    exact oneStep_call fun r => calls_ofExcept _ _
  · have hquiet : ∀ now s, (execStore R (.redis (.at k .ttl)) now s).2 = s := fun now s => exec_reads hR (c := .at k .ttl) rfl now s
    have hreply : ∀ now s, (execStore R (.redis (.at k .ttl)) now s).1 = .ok (.int (remaining now (s k))) :=
      fun now s => congrArg Prod.fst (hL.ttl now (s k))
    rw [program_pipeline hp hcs]
    intro hj
    have halone : ∀ now s, j.atOnce R st now s = (p.answer ns (replies [(execStore R (.redis (.at k c)) now s).1,
        (execStore R (.redis (.at k .ttl)) now (execStore R (.redis (.at k c)) now s).2).1]),
        (execStore R (.redis (.at k c)) now s).2) := by
      intro now s
      rw [hj, Alone, run_call, run_call, hquiet]
      cases p.answer ns _ <;> rfl
    refine Or.inr fun now s => ⟨?_, fun now' s' => ?_, fun now' s' => ?_⟩
    · show SameData _ (j.atOnce R st now s).2
      rw [halone]
      exact .refl _
    · rw [hquiet]
      exact .refl _
    · show After _ _ _ j (j.atOnce R st now s).1 _
      rw [halone, hreply, hreply]
      exact after_ofExcept (answer_ttl hdata _ _ _)

/-- A plan of one command, alone. -/
theorem alone_one {k : String} {c : KeyCmd} (hp : p.sending = .oneByOne) (hcs : p.commands = [(k, c)]) (now : Nat) (s : Store) :
    Alone R now (p.program ns) s = (p.answer ns (replies [(R.atKey k c now s).1]), (R.atKey k c now s).2) := by
  rw [program_oneByOne hp hcs, Alone, run_call]
  show (Prog.ofExcept (p.answer ns (replies [(R.atKey k c now s).1]))).run _ _ _ = _
  cases p.answer ns (replies [(R.atKey k c now s).1]) <;> rfl

/-- A plan of two commands, alone. -/
theorem alone_two {k : String} {c d : KeyCmd} (hp : p.sending = .pipeline) (hcs : p.commands = [(k, c), (k, d)]) (now : Nat) (s : Store) :
    Alone R now (p.program ns) s = (p.answer ns (replies [(R.atKey k c now s).1, (R.atKey k d now (R.atKey k c now s).2).1]),
      (R.atKey k d now (R.atKey k c now s).2).2) := by
  rw [program_pipeline hp hcs, Alone, run_call, run_call]
  show (Prog.ofExcept (p.answer ns (replies [(R.atKey k c now s).1, (R.atKey k d now (R.atKey k c now s).2).1]))).run _ _ _ = _
  cases p.answer ns (replies [(R.atKey k c now s).1, (R.atKey k d now (R.atKey k c now s).2).1]) <;> rfl

end Plans

/-! ### Requests of one step have such plans -/

section Table
variable {st : Settings} {ns : String} {α β : Type}

theorem oneStep_single {p : Plan} {x : String × KeyCmd} (hp : p.sending = .oneByOne) (hcs : p.commands = [x]) : p.OneStep :=
  Or.inr (Or.inl ⟨x, hp, hcs⟩)

theorem oneStep_keyed {operation : String} {x : Except Exn β} {q : β → Plan} (h : ∀ b, (q b).OneStep) :
    Planned.All Plan.OneStep (some (operation, x >>= fun b => pure (q b))) :=
  Planned.all_some (Yields.bind fun b _ => yields_pure (h b))

theorem oneStep_checked {operation : String} {y : Except Exn α} {x : α → Except Exn β} {q : α → β → Plan}
    (h : ∀ a b, (q a b).OneStep) : Planned.All Plan.OneStep (some (operation, y >>= fun a => x a >>= fun b => pure (q a b))) :=
  Planned.all_some (Yields.bind fun a _ => Yields.bind fun b _ => yields_pure (h a b))

theorem oneStep_delete {typePrefix key typeName : String} :
    Planned.All Plan.OneStep (some ("write", deletePlan st ns typePrefix key typeName)) :=
  oneStep_keyed fun _ => oneStep_single rfl rfl

theorem KvOp.plan_oneStep {o : KvOp} (h : o.oneStep = true) : Planned.All Plan.OneStep (o.plan st ns) := by
  cases o with
  | batchGetKv body => exact Planned.all_none
  | batchSetKv body => exact oneStep_checked fun _ _ => Or.inl rfl
  | getKv key => exact oneStep_keyed fun _ => Or.inr (Or.inr ⟨_, _, rfl, rfl, fun _ _ _ => rfl⟩)
  | setKv key body => exact oneStep_checked fun _ _ => oneStep_single rfl rfl
  | deleteKv key => exact oneStep_delete
  | existsKv key => exact oneStep_keyed fun _ => oneStep_single rfl rfl
  | incrKv key body => exact oneStep_keyed fun _ => Or.inr (Or.inr ⟨_, _, rfl, rfl, fun _ _ _ => rfl⟩)
  | touchKv key body => cases h
  | setKvNx key body => exact oneStep_keyed fun _ => oneStep_single rfl rfl

theorem MapOp.plan_oneStep {o : MapOp} (h : o.oneStep st = true) : Planned.All Plan.OneStep (o.plan st ns) := by
  cases o with
  | batchGetMap body => cases h
  | batchSetMap body => exact oneStep_checked fun _ _ => Or.inl rfl
  | getMap key => exact oneStep_keyed fun _ => Or.inr (Or.inr ⟨_, _, rfl, rfl, fun _ _ _ => rfl⟩)
  | getMapField key field => exact oneStep_keyed fun _ => Or.inr (Or.inr ⟨_, _, rfl, rfl, fun _ _ _ => rfl⟩)
  | setMap key body => exact oneStep_checked fun _ _ => Or.inl rfl
  | touchMap key body => cases h
  | setMapField key field body => exact oneStep_checked fun _ _ => Or.inl (if_pos (of_decide_eq_true h))
  | deleteMap key => exact oneStep_delete
  | deleteMapField key field => exact oneStep_keyed fun _ => oneStep_single rfl rfl

theorem QueueOp.plan_oneStep {o : QueueOp} (h : o.oneStep = true) : Planned.All Plan.OneStep (o.plan st ns) := by
  cases o with
  | popQueue key direction => exact oneStep_keyed fun _ => oneStep_single rfl rfl
  | rangeQueue key start stop => exact oneStep_keyed fun _ => oneStep_single rfl rfl
  | lenQueue key => exact oneStep_keyed fun _ => oneStep_single rfl rfl
  | deleteQueue key => exact oneStep_delete
  | _ => cases h

theorem GroupOp.plan_oneStep {o : GroupOp} (h : o.oneStep = true) : Planned.All Plan.OneStep (o.plan st ns) := by
  cases o with
  | batchGetGroup body => cases h
  | batchAddGroup body => exact oneStep_checked fun _ _ => Or.inl rfl
  | addGroup key body => cases h
  | membersGroup key => exact oneStep_keyed fun _ => oneStep_single rfl rfl
  | containsGroup key member => exact oneStep_keyed fun _ => oneStep_single rfl rfl
  | deleteGroup key => exact oneStep_delete
  | removeGroup key member => exact oneStep_keyed fun _ => oneStep_single rfl rfl
  | countGroup key => exact oneStep_keyed fun _ => oneStep_single rfl rfl
  | touchGroup key body => cases h
  | _ => exact Planned.all_none

theorem RankOp.plan_oneStep {o : RankOp} (h : o.oneStep = true) : Planned.All Plan.OneStep (o.plan st ns) := by
  cases o with
  | batchGetRank body => cases h
  | batchAddRank key body => cases h
  | addRank key body => cases h
  | rangeRank key start stop reverse => exact oneStep_keyed fun _ => oneStep_single rfl rfl
  | scoreRank key member => exact oneStep_keyed fun _ => oneStep_single rfl rfl
  | betweenRank key min max => exact oneStep_keyed fun _ => oneStep_single rfl rfl
  | deleteRank key => exact oneStep_delete
  | removeRank key member => exact oneStep_keyed fun _ => oneStep_single rfl rfl
  | incrRank key body =>
    refine Planned.all_some (Yields.bind fun _ _ => ?_)
    split
    · exact yields_throw
    · exact Yields.bind fun _ _ => yields_pure (Or.inr (Or.inr ⟨_, _, rfl, rfl, fun _ _ _ => rfl⟩))
  | touchRank key body => cases h
  | popRank key max => exact oneStep_keyed fun _ => oneStep_single rfl rfl

theorem EventOp.plan_oneStep {o : EventOp} (h : o.oneStep = true) : Planned.All Plan.OneStep (o.plan st ns) := by
  cases o with
  | batchPublishEvent key body => cases h
  | publishEvent key body => exact oneStep_checked fun _ _ => oneStep_single rfl rfl
  | readEvents key lastId count =>
    refine Planned.all_some (Yields.bind fun k _ => ?_)
    cases streamIdRe lastId
    · exact yields_throw
    · exact yields_pure (P := Plan.OneStep) (oneStep_single rfl rfl)
  | createGroup key body => exact oneStep_keyed fun _ => oneStep_single rfl rfl
  | readGroup key group consumer count => exact oneStep_keyed fun _ => oneStep_single rfl rfl
  | ackEvents key group body => exact oneStep_checked fun _ _ => oneStep_single rfl rfl
  | deleteEvent key => exact oneStep_delete
  | touchEvent key body => cases h
  | streamInfo key => cases h

theorem Op.plan_oneStep {o : Op} (h : o.oneStep st = true) : Planned.All Plan.OneStep (o.plan st ns) := by
  cases o with
  | kv o => exact KvOp.plan_oneStep h
  | map o => exact MapOp.plan_oneStep h
  | queue o => exact QueueOp.plan_oneStep h
  | group o => exact GroupOp.plan_oneStep h
  | rank o => exact RankOp.plan_oneStep h
  | event o => exact EventOp.plan_oneStep h
  | pubsub o => exact Planned.all_none

end Table

/-! ### Jobs -/

section Jobs
variable {R : Server} {st : Settings} {j : Job}

theorem oneStep_planned {client : ClientInfo} {ns : String} {o : Op} (hR : R.Lawful) (hL : R.Lifetimes)
    (ho : o.oneStep st = true) (hsome : o.plan st ns ≠ none) : OneStep R st j (o.handle st client ns) := by
  obtain ⟨⟨operation, x⟩, hx⟩ := Option.ne_none_iff_exists'.mp hsome
  rw [o.follows operation x hx]
  exact oneStep_guard (oneStep_ofExcept fun p hp => oneStep_plan hR hL (Op.plan_oneStep ho operation x hx p hp))

theorem oneStep_setOp {client : ClientInfo} {ns : String} (op : SetOp) (keys : List String) :
    OneStep R st j (setOp st client op ns keys) := by
  refine oneStep_guard (oneStep_ofExcept fun ks _ => oneStep_call fun r => ?_)
  cases r <;> trivial

/-- A handler of one step, whatever the client. -/
theorem oneStep_handle {client : ClientInfo} {ns : String} {o : Op} (hR : R.Lawful) (hL : R.Lifetimes)
    (ho : o.oneStep st = true) : OneStep R st j (o.handle st client ns) := by
  by_cases hsome : o.plan st ns = none
  · cases o with
    | kv o =>
      cases o with
      | batchGetKv body =>
        refine oneStep_guard (oneStep_ofExcept fun ks _ => oneStep_call fun r => ?_)
        cases r <;> trivial
      | _ => cases hsome
    | group o =>
      cases o with
      | interGroups body => exact oneStep_setOp .inter body.keys
      | unionGroups body => exact oneStep_setOp .union body.keys
      | diffGroups body => exact oneStep_setOp .diff body.keys
      | _ => cases hsome
    | queue o => cases o <;> first | cases ho; done | cases hsome
    | event o => cases o <;> first | cases ho; done | cases hsome
    | pubsub o =>
      cases o with
      | publishMessage channel body =>
        refine oneStep_guard (oneStep_ofExcept fun _ _ => oneStep_ofExcept fun _ _ => oneStep_ofExcept fun _ _ => ?_)
        refine oneStep_call fun r => ?_
        cases r <;> trivial
    | map o => cases o <;> cases hsome
    | rank o => cases o <;> cases hsome
  · exact oneStep_planned hR hL ho hsome

theorem oneStep_endpoint {client : Option ClientInfo} {ns : String} {o : Op} (hR : R.Lawful) (hL : R.Lifetimes)
    (ho : o.oneStep st = true) : OneStep R st j (endpoint st client ns o) := by
  cases client with
  | none => exact oneStep_refused _ _ _ _
  | some c =>
    cases hv : o.valid with
    | false =>
      rw [endpoint, hv]
      exact oneStep_silent trivial
    | true =>
      rw [endpoint, hv]
      exact oneStep_handle hR hL ho

/-- The end of a handler among what is observed of it. -/
def Observes (x : Except Exn (Except Exn Json × Pending)) (o : Except Exn Json) : Prop :=
  ∃ r pending, x = .ok (r, pending) ∧ SameButTtl r o

theorem after_observed {p : Handler Json} {o : Except Exn Json} (pending : Pending)
    (h : After (execStore R) (gatewaySpec R st) (fun _ => SameButTtl) j o p) :
    After (execStore R) (gatewaySpec R st) (fun _ => Observes) j o (observed p pending) := by
  induction p generalizing pending with
  | pure a => exact ⟨_, _, rfl, h⟩
  | raise e => exact ⟨_, _, rfl, h⟩
  | call c k ih => exact ⟨h.1, fun now s => ih _ _ (h.2 now s)⟩

theorem once_observed {p : Handler Json} (pending : Pending)
    (h : Once (execStore R) (gatewaySpec R st) (fun _ => SameButTtl) j p) :
    Once (execStore R) (gatewaySpec R st) (fun _ => Observes) j (observed p pending) := by
  induction p generalizing pending with
  | pure a => exact fun now s => ⟨⟨_, _, rfl, (h now s).1⟩, (h now s).2⟩
  | raise e => exact fun now s => ⟨⟨_, _, rfl, (h now s).1⟩, (h now s).2⟩
  | call c k ih =>
    rcases h with ⟨hquiet, hk⟩ | hpoint
    · exact Or.inl ⟨hquiet, fun now s => ih _ _ (hk now s)⟩
    · exact Or.inr fun now s => ⟨(hpoint now s).1, after_observed _ (hpoint now s).2⟩

section Bookkeeping
variable {α : Type} {ends : Job → Except Exn α → Except Exn Json → Prop} {o : Except Exn Json}

theorem after_sendAll {cs : List (String × KeyCmd)} (hcs : ∀ x ∈ cs, BookWrite x.1 x.2) {f : List Reply → Handler α}
    (hf : ∀ rs, After (execStore R) (gatewaySpec R st) ends j o (f rs)) :
    After (execStore R) (gatewaySpec R st) ends j o ((sendAll cs).bind f) := by
  induction cs generalizing f with
  | nil => exact hf []
  | cons x cs ih =>
    refine ⟨fun now s => agree_ownWrite (.book (hcs x List.mem_cons_self)) now s, fun now s => ?_⟩
    show After _ _ _ _ _ (((sendAll cs).bind fun rs => .pure (_ :: rs)).bind f)
    rw [bind_assoc]
    exact ih (fun y hy => hcs y (List.mem_cons_of_mem _ hy)) fun rs => hf _

end Bookkeeping

/-- The end of a job of one step, when its request does `o`. Any other job just ends. -/
def Job.Ends (st : Settings) (j : Job) (x : Except Exn (Option Response)) (o : Except Exn Json) : Prop :=
  ∃ r, x = .ok r ∧ (j.oneStep st = true → ∃ r', r = some (.of r') ∧ SameButTtl r' o)

theorem after_served {v : Seen} {o : Except Exn Json} (x : Except Exn Json × Pending) (hx : Observes (.ok x) o) :
    After (execStore R) (gatewaySpec R st) (Job.Ends st) j o
      (((sendAll (v.bookkeeping st x.1 x.2)).bind fun _ => .pure (.of x.1)).bind fun r => .pure (some r)) := by
  rw [bind_assoc]
  refine after_sendAll Seen.bookkeeping_bookWrite fun _ => ⟨_, rfl, fun _ => ⟨x.1, rfl, ?_⟩⟩
  obtain ⟨r, pending, hr, hsame⟩ := hx
  cases hr
  exact hsame

/-- A job of one step comes to its point in the handler, and what the middlewares send is behind it. -/
theorem once_oneStep (hR : R.Lawful) (hL : R.Lifetimes) (hj : j.oneStep st = true) :
    Once (execStore R) (gatewaySpec R st) (Job.Ends st) j (j.program st) := by
  cases j with
  | data q =>
    have hpoint : Once (execStore R) (gatewaySpec R st) (fun _ => SameButTtl) (.data q) (endpoint st q.client q.ns q.op) :=
      oneStep_endpoint hR hL hj fun _ _ => rfl
    show Once _ _ _ _ (((observed (endpoint st q.client q.ns q.op) none).bind _).bind _)
    rw [bind_assoc]
    refine (once_observed none hpoint).bind (fun x o hx => after_served x hx) fun e o he => ?_
    obtain ⟨r, pending, hr, -⟩ := he
    cases hr
  | admin q => cases hj
  | statusTick pid => cases hj

theorem quiet_calls {p : Handler Json} (hR : R.Lawful) (hp : p.Calls fun c => ∀ c', c = .redis c' → Uses .reads c') :
    p.Calls (Quiet (execStore R) (gatewaySpec R st)) := by
  refine hp.mono fun c hc now s => ?_
  cases c with
  | redis c => exact fun k _ => congrFun (exec_reads hR (hc c rfl) now s) k
  | setPendingEvent event errorCode => exact .refl s
  | fireMetric reason => exact agree_fireMetric reason now s

/-- A handler that only reads, with what the middlewares send. -/
theorem once_reads {v : Seen} {p : Handler Json} (hR : R.Lawful) (hj : j.oneStep st = false)
    (hsame : ∀ now s, SameData s (j.atOnce R st now s).2) (hp : p.Calls fun c => ∀ c', c = .redis c' → Uses .reads c') :
    Once (execStore R) (gatewaySpec R st) (Job.Ends st) j ((served st v p).bind fun r => .pure (some r)) := by
  refine Once.of_after hsame fun now s => ?_
  generalize ((gatewaySpec R st).apply j now s).1 = o
  have hquiet : p.Calls (Quiet (execStore R) (gatewaySpec R st)) := quiet_calls hR hp
  unfold served
  rw [bind_assoc]
  generalize (none : Pending) = pending
  clear hp
  induction p generalizing pending with
  | pure a =>
    show After _ _ _ _ _ ((((sendAll _).bind _)).bind _)
    rw [bind_assoc]
    exact after_sendAll Seen.bookkeeping_bookWrite fun _ => ⟨_, rfl, fun h => by rw [hj] at h; cases h⟩
  | raise e =>
    show After _ _ _ _ _ ((((sendAll _).bind _)).bind _)
    rw [bind_assoc]
    exact after_sendAll Seen.bookkeeping_bookWrite fun _ => ⟨_, rfl, fun h => by rw [hj] at h; cases h⟩
  | call c k ih => exact ⟨hquiet.1, fun now s => ih _ (hquiet.2 _) _⟩

/-- The call sends no command but one that only reads. -/
def Call.Reads (c : Call) : Prop := ∀ c', c = .redis c' → Uses .reads c'

theorem reads_redis {k : String} {c : KeyCmd} (hc : c.reads = true) : (redis k c).Calls Call.Reads :=
  calls_redis fun c' h => by
    cases h
    exact hc

theorem AdminOp.reads {client : ClientInfo} {o : AdminOp} (h : o.watches = true) : (o.handle st client).Calls Call.Reads := by
  have hguard : ∀ {f : Unit → Handler Json} {ns : String}, (f ()).Calls Call.Reads →
      ((requireRead client ns).bind f).Calls Call.Reads := fun hf =>
    calls_guard (fun _ _ _ h => by cases h) (fun _ _ h => by cases h) fun _ => hf
  cases o with
  | listKeys ns typeName pattern scan =>
    show (Redgw.listKeys st client ns typeName pattern scan).Calls _
    unfold Redgw.listKeys
    cases filterOr ns with
    | none =>
      refine Calls.ofExcept_bind fun _ _ => ?_
      trivial
    | some ns =>
      refine Calls.ofExcept_bind fun _ _ => hguard (Calls.ofExcept_bind fun _ _ => ?_)
      trivial
  | keyInfo ns typeName key =>
    refine hguard (Calls.ofExcept_bind fun _ _ => Calls.ofExcept_bind fun k _ => Calls.bind (reads_redis rfl) fun keyType => ?_)
    dsimp only
    split
    · trivial
    · refine Calls.bind (reads_redis rfl) fun ttl => Calls.bind (reads_redis rfl) fun encoding => Calls.bind ?_ fun _ => trivial
      unfold sizeInfo
      repeat' split
      all_goals first
        | exact Calls.bind (reads_redis rfl) fun _ => trivial
        | trivial
  | getStats limit memory keys => trivial
  | adminAuditOrigin ns typeName key loads =>
    refine calls_admin (fun _ _ _ h => by cases h) (fun _ _ h => by cases h) fun _ => ?_
    refine Calls.ofExcept_bind fun _ _ => Calls.ofExcept_bind fun k _ => Calls.bind (reads_redis rfl) fun raw => ?_
    dsimp only
    split
    · trivial
    · exact Calls.bind (reads_redis rfl) fun _ => trivial
  | _ => cases h

/-- Before the handler an admin request sends no command. -/
theorem adminEndpoint_of {P : Call → Prop} {client : Option ClientInfo} {o : AdminOp} (hp : ∀ e c, P (.setPendingEvent e c))
    (hf : ∀ r, P (.fireMetric r)) (h : ∀ c, client = some c → (o.handle st c).Calls P) : (adminEndpoint st client o).Calls P := by
  cases client with
  | none => exact ⟨hp _ _, fun _ => ⟨hf _, fun _ => trivial⟩⟩
  | some c =>
    cases hv : o.valid with
    | false =>
      rw [adminEndpoint, hv]
      trivial
    | true =>
      rw [adminEndpoint, hv]
      exact h c rfl

theorem adminEndpoint_reads {client : Option ClientInfo} {o : AdminOp} (h : o.watches = true) :
    (adminEndpoint st client o).Calls Call.Reads :=
  adminEndpoint_of (fun _ _ _ h => by cases h) (fun _ _ h => by cases h) fun _ _ => AdminOp.reads h

theorem endpoint_reads {client : Option ClientInfo} {ns : String} {o : Op} (h : o.use = .reads) :
    (endpoint st client ns o).Calls Call.Reads := by
  refine endpoint_calls (fun _ _ _ h => by cases h) (fun _ _ h => by cases h) fun c _ => ?_
  refine (o.within ns).mono fun call hcall c' hc' => ?_
  subst hc'
  exact h ▸ hcall.2.2

theorem atOnce_watches (hR : R.Lawful) (hw : j.watches = true) (now : Nat) (s : Store) : SameData s (j.atOnce R st now s).2 := by
  cases j with
  | data q =>
    have hreads : (endpoint st q.client q.ns q.op).Calls Call.Reads := endpoint_reads (of_decide_eq_true hw)
    have hquiet : (endpoint st q.client q.ns q.op).Calls (Quiet (execStore R) (gatewaySpec R st)) := quiet_calls hR hreads
    exact run_keeps (K := SameData) SameData.refl (fun _ _ _ h₁ h₂ k hk => (h₁ k hk).trans (h₂ k hk))
      (fun c hc _ s k hk => (hc now s k hk).symm) hquiet s
  | admin q => exact .refl s
  | statusTick pid => exact .refl s

theorem once_watches (hR : R.Lawful) (hj : j.oneStep st = false) (hw : j.watches = true) :
    Once (execStore R) (gatewaySpec R st) (Job.Ends st) j (j.program st) := by
  have hsame : ∀ now s, SameData s (j.atOnce R st now s).2 := atOnce_watches hR hw
  cases j with
  | data q => exact once_reads hR hj hsame (endpoint_reads (of_decide_eq_true hw))
  | admin q => exact once_reads hR hj hsame (adminEndpoint_reads hw)
  | statusTick pid =>
    exact Or.inl ⟨agree_ownWrite (.lead pid), fun now s x u => ⟨⟨none, rfl, fun h => by cases h⟩, .refl u⟩⟩

/-! ### Runs -/

/-- The order of the requests explains the gateway: each job has at most one place in it, the data is what they leave
    one after another, and a job of one step that has ended is answered as in its place, but for the TTL. -/
structure Gateway.Explained (R : Server) (st : Settings) (jobs : List Job) (t : Gateway) (order : List (Turn Nat Job)) : Prop where
  once : (order.map (·.program)).Nodup
  own : ∀ e ∈ order, jobs[e.program]? = some e.request
  data : SameData t.state ((gatewaySpec R st).sequence Store.empty order)
  answered : ∀ (i : Nat) p, t.programs[i]? = some p → Ended p → ∃ pre e post r, order = pre ++ e :: post ∧ e.program = i ∧
    p = .pure r ∧ (e.request.oneStep st = true → ∃ x, r = some (.of x) ∧
      SameButTtl x (e.request.atOnce R st e.env ((gatewaySpec R st).sequence Store.empty pre)).1)

theorem explained {t : Gateway} {jobs : List Job} {order : List (Turn Nat Job)}
    (ht : t.Linearized (execStore R) (gatewaySpec R st) (Job.Ends st) Store.empty jobs order) : t.Explained R st jobs order where
  once := ht.nodup
  own e he := by
    obtain ⟨pre, post, horder⟩ := List.append_of_mem he
    exact (ht.turns pre e post horder).1
  data := ht.state
  answered i p hp hend := by
    obtain ⟨pre, e, post, horder, hi, -, hafter⟩ := ht.outcome hp hend
    cases p with
    | pure r =>
      obtain ⟨r', hr, hx⟩ := hafter
      cases hr
      exact ⟨pre, e, post, r, horder, hi, rfl, hx⟩
    | raise error =>
      obtain ⟨r', hr, -⟩ := hafter
      cases hr
    | call c k => exact hend.elim

theorem linearized_jobs (hR : R.Lawful) (hL : R.Lifetimes) {acts : List (Pool.Act Job Nat)}
    (hjobs : ∀ j, .start j ∈ acts → j.oneStep st = true ∨ j.watches = true) {t u : Gateway} {jobs : List Job}
    {order : List (Turn Nat Job)} (ht : t.Linearized (execStore R) (gatewaySpec R st) (Job.Ends st) Store.empty jobs order)
    (h : Runs.run (Pool.step (execStore R) (Job.program st)) t acts = some u) : ∃ more,
    u.Linearized (execStore R) (gatewaySpec R st) (Job.Ends st) Store.empty (jobs ++ started acts) (order ++ more) ∧
      ∀ e ∈ more, .resume e.program e.env ∈ acts := by
  refine ht.run (fun j hj => ⟨?_, j.begun st⟩) h
  cases hone : j.oneStep st with
  | true => exact once_oneStep hR hL hone
  | false => exact once_watches hR hone ((hjobs j hj).resolve_left (by simp [hone]))

/-- Each turn is of a job that was started. -/
theorem turns_started {acts : List (Pool.Act Job Nat)} {t : Gateway} {order : List (Turn Nat Job)}
    (h : t.Explained R st (started acts) order) {e : Turn Nat Job} (he : e ∈ order) : .start e.request ∈ acts := by
  obtain ⟨a, ha, hstart⟩ := List.mem_filterMap.mp (List.mem_of_getElem? (h.own e he))
  cases a with
  | start j =>
    cases hstart
    exact ha
  | resume i x => cases hstart

/-- The order of a run, and of a part of it. -/
theorem ordered (hR : R.Lawful) (hL : R.Lifetimes) {before after : List (Pool.Act Job Nat)}
    (hjobs : ∀ j, .start j ∈ before ++ after → j.oneStep st = true ∨ j.watches = true) {t : Gateway}
    (h : Gateway.run st R (before ++ after) = some t) : ∃ u order more, Gateway.run st R before = some u ∧
      u.Explained R st (started before) order ∧ t.Explained R st (started before ++ started after) (order ++ more) ∧
      (∀ e ∈ order, .resume e.program e.env ∈ before) ∧ ∀ e ∈ more, .resume e.program e.env ∈ after := by
  obtain ⟨u, hu, hut⟩ := Runs.run_append.mp h
  obtain ⟨order, horder, hfirst⟩ := linearized_jobs hR hL (fun j hj => hjobs j (List.mem_append_left _ hj))
    (linearized_nil Store.empty (SameData.refl _)) hu
  obtain ⟨more, hmore, htimes⟩ := linearized_jobs hR hL (fun j hj => hjobs j (List.mem_append_right _ hj)) horder hut
  exact ⟨u, order, more, hu, explained horder, explained hmore, hfirst, htimes⟩

/-- A job of one step that has ended has moved an object, and is answered so, or has left it alone. -/
theorem Gateway.Explained.moved {A T : Type} {B : Object Nat Store Job (Except Exn Json) A T} {t : Gateway} {jobs : List Job}
    {order : List (Turn Nat Job)} (h : t.Explained R st jobs order) {a₀ : A} {moves : List (Nat × T)}
    (hB : B.Moved (gatewaySpec R st) a₀ Store.empty order moves) {i : Nat} {j : Job} (hj : jobs[i]? = some j)
    (hone : j.oneStep st = true) {p : Prog Call Call.Ret Exn (Option Response)} (hp : t.programs[i]? = some p) (hend : Ended p) :
    ∃ x y now, p = .pure (some (.of x)) ∧ SameButTtl x y ∧
      ((∃ before τ after, moves = before ++ (i, τ) :: after ∧ B.Moves ⟨i, j, now⟩ τ (B.after a₀ before) y) ∨
        i ∉ moves.map Prod.fst ∧ B.Idle ⟨i, j, now⟩ y) := by
  obtain ⟨pre, e, post, r, horder, rfl, rfl, hr⟩ := h.answered i p hp hend
  have hown := h.own e (by simp [horder])
  rw [hj] at hown
  cases hown
  obtain ⟨x, rfl, hx⟩ := hr hone
  exact ⟨x, _, e.env, rfl, hx, hB.turns pre e post horder⟩

/-- Whatever jobs of one step, and jobs that only read, are served side by side, the data is what the requests of one
    step leave one after another, in an order to which the run only adds, and each of them is answered as in its place
    but for the TTL. The place of a request is at one of its own steps, with the time of that step. -/
theorem requests_linearizable (hR : R.Lawful) (hL : R.Lifetimes) {before after : List (Pool.Act Job Nat)}
    (hjobs : ∀ j, .start j ∈ before ++ after → j.oneStep st = true ∨ j.watches = true) {t : Gateway}
    (h : Gateway.run st R (before ++ after) = some t) : ∃ u order more, Gateway.run st R before = some u ∧
      u.Explained R st (started before) order ∧ t.Explained R st (started before ++ started after) (order ++ more) ∧
      (∀ e ∈ order, .resume e.program e.env ∈ before) ∧ ∀ e ∈ more, .resume e.program e.env ∈ after :=
  ordered hR hL hjobs h

end Jobs

def countJob (delta : Int) : Job := .data (plainRequest appClient "app" (.kv (.incrKv "n" ⟨delta⟩)))

/-- The second increment comes first, and the monitor has its tick in between. -/
theorem requests_linearizable_increments : ∃ t u order more,
    Gateway.run {} reference ([.start (countJob 5), .start (countJob 3), .resume 1 7] ++
      [.start (.statusTick "1"), .resume 0 8, .resume 2 8, .resume 0 9]) = some t ∧
    Gateway.run {} reference [.start (countJob 5), .start (countJob 3), .resume 1 7] = some u ∧
    u.Explained reference {} [countJob 5, countJob 3] order ∧
    t.Explained reference {} ([countJob 5, countJob 3] ++ [.statusTick "1"]) (order ++ more) ∧
    (∀ e ∈ order, e.program = 1 ∧ e.env = 7) ∧ ∀ e ∈ more, e.program ≠ 1 := by
  obtain ⟨t, ht⟩ : ∃ t, Gateway.run {} reference ([.start (countJob 5), .start (countJob 3), .resume 1 7] ++
      [.start (.statusTick "1"), .resume 0 8, .resume 2 8, .resume 0 9]) = some t := ⟨_, rfl⟩
  have hjobs : ∀ j, Pool.Act.start j ∈ ([.start (countJob 5), .start (countJob 3), .resume 1 7] ++
      [.start (.statusTick "1"), .resume 0 8, .resume 2 8, .resume 0 9] : List (Pool.Act Job Nat)) →
      j.oneStep {} = true ∨ j.watches = true := by
    intro j hj
    simp only [List.cons_append, List.nil_append, List.mem_cons, Pool.Act.start.injEq, reduceCtorEq, List.not_mem_nil,
      or_false, false_or] at hj
    rcases hj with rfl | rfl | rfl
    · exact Or.inl rfl
    · exact Or.inl rfl
    · exact Or.inr rfl
  obtain ⟨u, order, more, hu, hbefore, hafter, hfirst, htimes⟩ :=
    requests_linearizable reference_lawful reference_lifetimes hjobs ht
  refine ⟨t, u, order, more, ht, hu, hbefore, hafter, fun e he => ?_, fun e he => ?_⟩
  · simpa using hfirst e he
  · intro hprogram
    simpa [hprogram] using htimes e he

end Redgw
