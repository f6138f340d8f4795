import Redgw.Plans
import Redgw.Redis.Reference
import Redgw.Sends
import Redgw.System
import Redgw.Theorems.Isolation

/-! # Integers in commands

Redis takes signed 64-bit integers. The schemas bound some of the integers that a request brings, and the
handlers pass the others on. -/

namespace Redgw
open Redis Prog Fallible

/-! ### What is passed -/

/-- The integers of a command that is sent at time `now`; a lifetime becomes a deadline in milliseconds. -/
def Redis.KeyCmd.ints (now : Nat) : KeyCmd → List Int
  | .set _ (some seconds) _ | .setex seconds _ | .expire seconds => [seconds, seconds * 1000, now + seconds * 1000]
  | .incrby delta => [delta]
  | .lrange start stop | .ltrim start stop | .zrange start stop _ => [start, stop]
  | .xadd _ maxlen => [maxlen]
  | .xrange _ count | .xreadgroup _ _ count => [count]
  | _ => []

/-- The integers among the arguments of the script that a request runs. -/
def Op.scriptArgs (st : Settings) : Op → List Int
  | queue (.pushQueue _ _) => [st.defaults.maxListLength]
  | queue (.batchPushQueue _ body) => [st.defaults.maxListLength, body.values.length]
  | _ => []

/-- The integers of a call; `args` are those of a script. -/
def Call.ints (now : Nat) (args : List Int) : Call → List Int
  | .redis (.at _ c) => c.ints now
  | .redis (.multi cs) => cs.flatMap fun x => x.2.ints now
  | .redis (.eval _ _) => args
  | .redis _ => []
  | .fireMetric reason => (recordAuthFailure reason).flatMap fun x => x.2.ints now
  | .setPendingEvent _ _ => []

def Fit (ns : List Int) : Prop := ∀ n ∈ ns, int64 n = true

/-- The parameters `cursor` and `count` of `list_keys`. -/
structure Page where
  cursor : Int := 0
  count : Int := 100

def Page.valid (p : Page) : Bool := decide (1 ≤ p.count ∧ p.count ≤ 1000)

/-- The integers that an admin endpoint passes to SCAN, once it gets there. -/
def AdminOp.scan (st : Settings) (client : ClientInfo) (page : Page) : AdminOp → Handler (List Int)
  | listKeys ns typeName pattern _ => do
    match filterOr ns with
    | some ns =>
      let _ ← validateNs st.engine ns
      requireRead client ns
    | none => Prog.pure ()
    let _ ← buildScanPattern ns typeName pattern
    return [page.cursor, page.count]
  | bulkDeleteKeys ns typeName pattern _ _ => do
    requireAdmin client
    let _ ← validateNs st.engine ns
    let _ ← buildScanPattern (some ns) typeName pattern
    return [500]
  | getStats _ _ _ => return [500]
  | _ => return []

/-- A request to the data plane, or to an admin endpoint. -/
inductive ApiRequest
  | data (ns : String) (o : Op)
  | admin (o : AdminOp) (page : Page)

namespace ApiRequest

/-- The schemas and the declarations of the query parameters accept the request. -/
def valid : ApiRequest → Bool
  | data _ o => o.valid
  | admin o page => o.valid && page.valid

/-- Every integer that the request passes to Redis at time `now` fits, whatever Redis answers. -/
def IntegersFit (st : Settings) (client : Option ClientInfo) (now : Nat) : ApiRequest → Prop
  | data ns o => (endpoint st client ns o).Calls fun call => Fit (call.ints now (o.scriptArgs st))
  | admin o page => (adminEndpoint st client o).Calls (fun call => Fit (call.ints now [])) ∧
      ∀ c, client = some c → (o.scan st c page).Ends (fun _ _ => True) fun r => ∀ ns, r = .ok ns → Fit ns

end ApiRequest

/-! ### What no schema bounds -/

/-- The integers that are passed on as they are: no schema bounds them on both sides, or they are settings. -/
def Op.unbounded (st : Settings) : Op → List Int
  | queue (.rangeQueue _ start stop) => [start, stop]
  | queue (.trimQueue _ body) => [-body.keep]
  | queue (.pushQueue _ _) | queue (.batchPushQueue _ _) => [st.defaults.maxListLength]
  | rank (.rangeRank _ start stop _) => [start, stop]
  | rank (.batchGetRank body) => [body.start, body.stop]
  | event (.publishEvent _ _) | event (.batchPublishEvent _ _) => [st.defaults.maxStreamLength]
  | _ => []

/-- The lifetime that the request sets, that of the settings if it gives none. -/
def Op.lifetime (st : Settings) : Op → Option Int
  | kv (.setKv _ body) | kv (.setKvNx _ body) => some (resolveTtl st body.ttl)
  | kv (.batchSetKv body) => some (resolveTtl st body.ttl)
  | map (.setMap _ body) => some (resolveTtl st body.ttl)
  | map (.setMapField _ _ body) => some (resolveTtl st body.ttl)
  | map (.batchSetMap body) => some (resolveTtl st body.ttl)
  | queue (.pushQueue _ body) => some (resolveTtl st body.ttl)
  | queue (.batchPushQueue _ body) => some (resolveTtl st body.ttl)
  | group (.addGroup _ body) => some (resolveTtl st body.ttl)
  | group (.batchAddGroup body) => some (resolveTtl st body.ttl)
  | rank (.addRank _ body) => some (resolveTtl st body.ttl)
  | rank (.batchAddRank _ body) => some (resolveTtl st body.ttl)
  | kv (.touchKv _ body) | map (.touchMap _ body) | queue (.touchQueue _ body) | group (.touchGroup _ body)
  | rank (.touchRank _ body) | event (.touchEvent _ body) => some body.ttl
  | _ => none

/-- The deadline of a lifetime that is set at time `now`. -/
def deadlines (now : Nat) : Option Int → List Int
  | some ttl => if 0 < ttl then [now + ttl * 1000] else []
  | none => []

/-- The permission that a request needs, and what is checked before anything is sent. -/
def Op.gate (st : Settings) (ns : String) (o : Op) : Option (String × Except Exn Unit) :=
  match o with
  | queue (.pushQueue key body) => some ("write", do
    checkValueSize st body.value
    let _ ← buildKey st.engine ns queuePrefix key)
  | queue (.batchPushQueue key body) => some ("write", do
    body.values.forM fun v => checkValueSize st v
    let _ ← buildKey st.engine ns queuePrefix key)
  | _ => (o.plan st ns).map fun x => (x.1, x.2.map fun _ => ())

/-- Nothing stops the client from listing the keys. -/
def MayList (st : Settings) (client : ClientInfo) (ns typeName : Option String) (pattern : String) : Prop :=
  (∀ n, filterOr ns = some n → (∃ m, validateNs st.engine n = .ok m) ∧ checkAccess client n "read" = true) ∧
    ∃ glob, buildScanPattern ns typeName pattern = .ok glob

namespace ApiRequest

/-- The request passes the checks. -/
def Admitted (st : Settings) (client : Option ClientInfo) : ApiRequest → Prop
  | data ns o => ∃ c operation, client = some c ∧ o.gate st ns = some (operation, .ok ()) ∧ checkAccess c ns operation = true
  | admin (.listKeys ns typeName pattern _) _ => ∃ c, client = some c ∧ MayList st c ns typeName pattern
  | admin (.setTtl ns typeName key _) _ => ∃ c typePrefix k, client = some c ∧ c.clientId = "admin" ∧
      resolveTypePrefix typeName = .ok typePrefix ∧ buildKey st.engine ns typePrefix key = .ok k
  | admin _ _ => True

def unbounded (st : Settings) (now : Nat) : ApiRequest → List Int
  | data _ o => o.unbounded st ++ deadlines now (o.lifetime st)
  | admin (.listKeys _ _ _ _) page => [page.cursor]
  | admin (.setTtl _ _ _ body) _ => deadlines now (some body.ttl)
  | admin _ _ => []

end ApiRequest

/-! ### Ranges -/

@[simp] theorem fit_nil : Fit [] := fun _ h => by cases h

@[simp] theorem fit_cons {n : Int} {ns : List Int} : Fit (n :: ns) ↔ int64 n = true ∧ Fit ns := List.forall_mem_cons

@[simp] theorem fit_append {ns ms : List Int} : Fit (ns ++ ms) ↔ Fit ns ∧ Fit ms := List.forall_mem_append

theorem fit_flatMap {α : Type} {f : α → List Int} {xs : List α} : Fit (xs.flatMap f) ↔ ∀ x ∈ xs, Fit (f x) := by
  unfold Fit
  simp only [List.mem_flatMap, forall_exists_index, and_imp]
  exact ⟨fun h x hx n hn => h n x hx hn, fun h n x hx hn => h x hx n hn⟩

/-- If the deadline fits, so does the lifetime. -/
theorem fit_deadline {now : Nat} {ttl : Int} (h : 0 < ttl) :
    Fit [ttl, ttl * 1000, now + ttl * 1000] ↔ Fit (deadlines now (some ttl)) := by
  unfold deadlines
  dsimp only
  rw [if_pos h]
  simp only [fit_cons, fit_nil, and_true, int64, decide_eq_true_eq]
  omega

theorem fit_lifetime {now : Nat} (k : String) (ttl : Int) :
    Fit ((Redgw.lifetime k ttl).2.ints now) ↔ Fit (deadlines now (some ttl)) := by
  unfold Redgw.lifetime
  by_cases h : 0 < ttl
  · dsimp only
    rw [if_pos h]
    exact fit_deadline h
  · unfold deadlines
    dsimp only
    rw [if_neg h, if_neg h]
    rfl

/-! ### The calls of a plan -/

section Calls
variable {st : Settings} {client : ClientInfo} {ns operation : String} {α β : Type} {P : Call → Prop}

theorem calls_ofExcept_bind {x : Except Exn β} {f : β → Handler α} :
    ((Prog.ofExcept x).bind f).Calls P ↔ ∀ a, x = .ok a → (f a).Calls P := by
  cases x with
  | ok a =>
    refine ⟨fun h b hb => ?_, fun h => h a rfl⟩
    cases hb
    exact h
  | error e => exact ⟨fun _ _ h => (by cases h), fun _ => trivial⟩

theorem calls_requireAccess_iff (hp : ∀ e c, P (.setPendingEvent e c)) (hf : ∀ r, P (.fireMetric r)) {f : Unit → Handler α} :
    ((requireAccess client ns operation).bind f).Calls P ↔ (checkAccess client ns operation = true → (f ()).Calls P) := by
  refine ⟨fun h ha => ?_, fun h => calls_guard hp hf h⟩
  unfold requireAccess at h
  rw [if_pos ha] at h
  exact h

theorem calls_ofReply_iff {f : Json → Handler α} : (∀ r, ((ofReply r).bind f).Calls P) ↔ ∀ v, (f v).Calls P := by
  refine ⟨fun h v => h (.ok v), fun h r => ?_⟩
  cases r with
  | ok v => exact h v
  | error msg => trivial

theorem calls_redis_iff {k : String} {c : KeyCmd} {f : Json → Handler α} :
    ((redis k c).bind f).Calls P ↔ P (.redis (.at k c)) ∧ ∀ v, (f v).Calls P := and_congr_right fun _ => calls_ofReply_iff

theorem calls_script_iff {k : String} {body : Script} {f : Json → Handler α} :
    ((script k body).bind f).Calls P ↔ P (.redis (.eval k body)) ∧ ∀ v, (f v).Calls P :=
  and_congr_right fun _ => calls_ofReply_iff

theorem calls_sendAll_iff {cs : List (String × KeyCmd)} {f : List Reply → Handler α} (hf : ∀ rs, (f rs).Calls P) :
    ((sendAll cs).bind f).Calls P ↔ ∀ x ∈ cs, P (.redis (.at x.1 x.2)) := by
  induction cs generalizing f with
  | nil => exact ⟨fun _ _ h => (by cases h), fun _ => hf _⟩
  | cons x cs ih =>
    have hrest : ∀ r : Reply, (((sendAll cs).bind fun rs => .pure (r :: rs)).bind f).Calls P ↔
        ∀ x ∈ cs, P (.redis (.at x.1 x.2)) := by
      intro r
      rw [Prog.bind_assoc]
      exact ih fun rs => hf (r :: rs)
    rw [List.forall_mem_cons]
    exact and_congr_right fun _ => ⟨fun h => (hrest (.ok .null)).mp (h (.ok .null)), fun h r => (hrest r).mpr h⟩

theorem calls_sendOneByOne_iff {cs : List (String × KeyCmd)} {f : Except String (List Json) → Handler α}
    (hf : ∀ r, (f r).Calls P) : ((sendOneByOne cs).bind f).Calls P ↔ ∀ x ∈ cs, P (.redis (.at x.1 x.2)) := by
  induction cs generalizing f with
  | nil => exact ⟨fun _ _ h => (by cases h), fun _ => hf _⟩
  | cons x cs ih =>
    have hrest : ∀ v : Json, (((sendOneByOne cs).bind fun r => .pure (r.map (v :: ·))).bind f).Calls P ↔
        ∀ x ∈ cs, P (.redis (.at x.1 x.2)) := by
      intro v
      rw [Prog.bind_assoc]
      exact ih fun r => hf _
    rw [List.forall_mem_cons]
    refine and_congr_right fun _ => ⟨fun h => (hrest .null).mp (h (.ok .null)), fun h r => ?_⟩
    cases r with
    | ok v => exact (hrest v).mpr h
    | error msg => exact hf _

/-- A plan sends its commands, whatever is answered before. -/
theorem calls_program (hmulti : ∀ cs, P (.redis (.multi cs)) ↔ ∀ x ∈ cs, P (.redis (.at x.1 x.2))) (p : Plan) :
    (p.program ns).Calls P ↔ ∀ x ∈ p.commands, P (.redis (.at x.1 x.2)) := by
  unfold Plan.program Plan.send
  cases p.sending with
  | oneByOne => exact calls_sendOneByOne_iff fun r => calls_ofExcept P _
  | pipeline =>
    dsimp only
    rw [Prog.bind_assoc]
    exact calls_sendAll_iff fun rs => calls_ofExcept P _
  | transaction =>
    rw [← hmulti]
    exact ⟨fun h => h.1, fun h => ⟨h, fun rs => calls_ofExcept P _⟩⟩

/-- A request with a plan sends the commands of the plan, if its client may. -/
theorem calls_follows (hp : ∀ e c, P (.setPendingEvent e c)) (hf : ∀ r, P (.fireMetric r))
    (hmulti : ∀ cs, P (.redis (.multi cs)) ↔ ∀ x ∈ cs, P (.redis (.at x.1 x.2))) {handler : Handler Json}
    {x : Except Exn Plan} (h : Follows client ns handler (some (operation, x))) :
    handler.Calls P ↔ checkAccess client ns operation = true → ∀ p, x = .ok p → ∀ c ∈ p.commands, P (.redis (.at c.1 c.2)) := by
  rw [h operation x rfl, calls_requireAccess_iff hp hf, calls_ofExcept_bind]
  exact imp_congr_right fun _ => forall_congr' fun p => imp_congr_right fun _ => calls_program hmulti p

end Calls

/-! ### The integers of each plan -/

/-- The integers of the commands fit exactly when these do. -/
def Plan.Covers (now : Nat) (ns : List Int) (p : Plan) : Prop := (∀ x ∈ p.commands, Fit (x.2.ints now)) ↔ Fit ns

/-- What the request passes on, with its deadline. -/
def Op.passed (st : Settings) (now : Nat) (o : Op) : List Int := o.unbounded st ++ deadlines now (o.lifetime st)

section Covers
variable {st : Settings} {ns : String} {now : Nat}

theorem covers_none {p : Plan} (h : ∀ x ∈ p.commands, x.2.ints now = []) : p.Covers now [] := by
  refine ⟨fun _ => fit_nil, fun _ x hx => ?_⟩
  rw [h x hx]
  exact fit_nil

theorem fit_setex (ttl : Int) (value : String) :
    Fit ((if 0 < ttl then .setex ttl value else .set value none false : KeyCmd).ints now) ↔ Fit (deadlines now (some ttl)) := by
  by_cases h : 0 < ttl
  · rw [if_pos h]
    exact fit_deadline h
  · unfold deadlines
    dsimp only
    rw [if_neg h, if_neg h]
    rfl

theorem fit_setNx (ttl : Int) (value : String) :
    Fit ((if 0 < ttl then .set value (some ttl) true else .set value none true : KeyCmd).ints now) ↔
      Fit (deadlines now (some ttl)) := by
  by_cases h : 0 < ttl
  · rw [if_pos h]
    exact fit_deadline h
  · unfold deadlines
    dsimp only
    rw [if_neg h, if_neg h]
    rfl

theorem covers_one {p : Plan} {k : String} {c : KeyCmd} {ms : List Int} (hp : p.commands = [(k, c)])
    (hc : Fit (c.ints now) ↔ Fit ms) : p.Covers now ms := by
  unfold Plan.Covers
  rw [hp, List.forall_mem_singleton]
  exact hc

/-- A write, the lifetime and TTL. -/
theorem covers_lasting {p : Plan} {k : String} {c : KeyCmd} {ttl : Int} (hp : p.commands = [(k, c), lifetime k ttl, (k, .ttl)])
    (hc : c.ints now = []) : p.Covers now (deadlines now (some ttl)) := by
  have httl : Fit (KeyCmd.ttl.ints now) := fit_nil
  unfold Plan.Covers
  rw [hp, List.forall_mem_cons, List.forall_mem_cons, List.forall_mem_singleton, hc, fit_lifetime]
  exact ⟨fun h => h.2.1, fun h => ⟨fit_nil, h, httl⟩⟩

theorem covers_delete {typePrefix key typeName : String} :
    Planned.All (Plan.Covers now []) (some ("write", deletePlan st ns typePrefix key typeName)) :=
  Planned.all_some (Yields.bind fun _ _ => yields_pure (covers_one rfl Iff.rfl))

theorem covers_touch {typePrefix key typeName : String} {body : TtlSetRequest} :
    Planned.All (Plan.Covers now (deadlines now (some body.ttl))) (some ("write", touchPlan st ns typePrefix key typeName body)) :=
  Planned.all_some (Yields.bind fun _ _ => yields_pure (covers_lasting rfl rfl))

theorem fit_queueItems {β : Type} {typePrefix : String} {items : List (String × β)} (hne : items ≠ [])
    {queue : String → β → List (String × KeyCmd)} {ms : List Int}
    (hq : ∀ k v, (∀ x ∈ queue k v, Fit (x.2.ints now)) ↔ Fit ms) {cs : List (String × KeyCmd)}
    (h : queueItems st ns typePrefix items queue = .ok cs) : (∀ x ∈ cs, Fit (x.2.ints now)) ↔ Fit ms := by
  constructor
  · intro hcs
    cases items with
    | nil => exact absurd rfl hne
    | cons item items =>
      unfold queueItems at h
      obtain ⟨queued, hqueued, h⟩ := bind_ok.mp h
      cases h
      rw [List.mapM_cons] at hqueued
      obtain ⟨ys, hys, hqueued⟩ := bind_ok.mp hqueued
      obtain ⟨rest, -, hqueued⟩ := bind_ok.mp hqueued
      cases hqueued
      obtain ⟨k, -, hys⟩ := bind_ok.mp hys
      cases hys
      refine (hq k item.2).mp fun x hx => hcs x ?_
      rw [List.flatten_cons]
      exact List.mem_append_left _ hx
  · intro hms x hx
    obtain ⟨item, -, k, -, hx⟩ := mem_queueItems h hx
    exact (hq k item.2).mpr hms x hx

theorem ne_nil_of_batchSize {α : Type} {xs : List α} (h : batchSize xs.length = true) : xs ≠ [] := by
  rintro rfl
  cases h

theorem KvOp.covers (o : KvOp) (hvalid : o.valid = true) : (o.plan st ns).All (Plan.Covers now ((Op.kv o).passed st now)) := by
  cases o with
  | batchGetKv body => exact Planned.all_none
  | batchSetKv body =>
    have hitems : body.items.items ≠ [] := by
      simp only [KvOp.valid, KvBatchSetRequest.valid, Bool.and_eq_true] at hvalid
      exact ne_nil_of_batchSize hvalid.1.1
    refine Planned.all_some (Yields.bind fun _ _ => Yields.bind fun cs hcs => yields_pure (fit_queueItems hitems (fun k v => ?_) hcs))
    rw [List.forall_mem_singleton]
    exact fit_setex _ _
  | getKv key => exact Planned.all_some (Yields.bind fun _ _ => yields_pure (covers_none (by simp [KeyCmd.ints])))
  | setKv key body =>
    exact Planned.all_some (Yields.bind fun _ _ => Yields.bind fun _ _ => yields_pure (covers_one rfl (fit_setex _ _)))
  | deleteKv key => exact covers_delete
  | existsKv key => exact Planned.all_some (Yields.bind fun _ _ => yields_pure (covers_one rfl Iff.rfl))
  | incrKv key body =>
    refine Planned.all_some (Yields.bind fun k _ => yields_pure ⟨fun _ => fit_nil, fun _ x hx => ?_⟩)
    have hdelta : int64 body.delta = true := hvalid
    rcases List.mem_pair.mp hx with rfl | rfl
    · exact fit_cons.mpr ⟨hdelta, fit_nil⟩
    · exact fit_nil
  | touchKv key body => exact covers_touch
  | setKvNx key body => exact Planned.all_some (Yields.bind fun _ _ => yields_pure (covers_one rfl (fit_setNx _ _)))

theorem MapOp.covers (o : MapOp) (hvalid : o.valid = true) : (o.plan st ns).All (Plan.Covers now ((Op.map o).passed st now)) := by
  cases o with
  | batchGetMap body =>
    refine Planned.all_some (Yields.bind fun ks _ => yields_pure (covers_none fun x hx => ?_))
    obtain ⟨rk, -, rfl⟩ := List.mem_map.mp hx
    rfl
  | batchSetMap body =>
    have hitems : body.items.items ≠ [] := by
      simp only [MapOp.valid, MapBatchSetRequest.valid, Bool.and_eq_true] at hvalid
      exact ne_nil_of_batchSize hvalid.1.1
    refine Planned.all_some (Yields.bind fun _ _ => Yields.bind fun cs hcs => yields_pure (fit_queueItems hitems (fun k v => ?_) hcs))
    rw [List.forall_mem_cons, List.forall_mem_singleton, fit_lifetime]
    exact and_iff_right fit_nil
  | getMap key => exact Planned.all_some (Yields.bind fun _ _ => yields_pure (covers_none (by simp [KeyCmd.ints])))
  | getMapField key field => exact Planned.all_some (Yields.bind fun _ _ => yields_pure (covers_none (by simp [KeyCmd.ints])))
  | setMap key body =>
    exact Planned.all_some (Yields.bind fun _ _ => Yields.bind fun _ _ => yields_pure (covers_lasting rfl rfl))
  | touchMap key body => exact covers_touch
  | setMapField key field body =>
    exact Planned.all_some (Yields.bind fun _ _ => Yields.bind fun _ _ => yields_pure (covers_lasting rfl rfl))
  | deleteMap key => exact covers_delete
  | deleteMapField key field => exact Planned.all_some (Yields.bind fun _ _ => yields_pure (covers_one rfl Iff.rfl))

theorem QueueOp.covers (o : QueueOp) : (o.plan st ns).All (Plan.Covers now ((Op.queue o).passed st now)) := by
  cases o with
  | batchPushQueue key body => exact Planned.all_none
  | pushQueue key body => exact Planned.all_none
  | popQueue key direction =>
    refine Planned.all_some (Yields.bind fun _ _ => yields_pure (covers_one rfl ?_))
    cases direction <;> rfl
  | rangeQueue key start stop => exact Planned.all_some (Yields.bind fun _ _ => yields_pure (covers_one rfl Iff.rfl))
  | lenQueue key => exact Planned.all_some (Yields.bind fun _ _ => yields_pure (covers_one rfl Iff.rfl))
  | deleteQueue key => exact covers_delete
  | touchQueue key body => exact covers_touch
  | trimQueue key body =>
    refine Planned.all_some (Yields.bind fun _ _ => yields_pure ⟨fun h => ?_, fun h x hx => ?_⟩)
    · have hkeep := h _ List.mem_cons_self
      exact fit_cons.mpr ⟨(fit_cons.mp hkeep).1, fit_nil⟩
    · rcases List.mem_pair.mp hx with rfl | rfl
      · exact fit_cons.mpr ⟨(fit_cons.mp h).1, fit_cons.mpr ⟨rfl, fit_nil⟩⟩
      · exact fit_nil

theorem GroupOp.covers (o : GroupOp) (hvalid : o.valid = true) :
    (o.plan st ns).All (Plan.Covers now ((Op.group o).passed st now)) := by
  cases o with
  | batchGetGroup body =>
    refine Planned.all_some (Yields.bind fun ks _ => yields_pure (covers_none fun x hx => ?_))
    obtain ⟨rk, -, rfl⟩ := List.mem_map.mp hx
    rfl
  | batchAddGroup body =>
    have hitems : body.items.items ≠ [] := by
      simp only [GroupOp.valid, GroupBatchAddRequest.valid, Bool.and_eq_true] at hvalid
      exact ne_nil_of_batchSize hvalid.1.1
    refine Planned.all_some (Yields.bind fun _ _ => Yields.bind fun cs hcs => yields_pure (fit_queueItems hitems (fun k v => ?_) hcs))
    rw [List.forall_mem_cons, List.forall_mem_singleton, fit_lifetime]
    exact and_iff_right fit_nil
  | addGroup key body =>
    exact Planned.all_some (Yields.bind fun _ _ => Yields.bind fun _ _ => yields_pure (covers_lasting rfl rfl))
  | membersGroup key => exact Planned.all_some (Yields.bind fun _ _ => yields_pure (covers_one rfl Iff.rfl))
  | containsGroup key member => exact Planned.all_some (Yields.bind fun _ _ => yields_pure (covers_one rfl Iff.rfl))
  | deleteGroup key => exact covers_delete
  | removeGroup key member => exact Planned.all_some (Yields.bind fun _ _ => yields_pure (covers_one rfl Iff.rfl))
  | countGroup key => exact Planned.all_some (Yields.bind fun _ _ => yields_pure (covers_one rfl Iff.rfl))
  | touchGroup key body => exact covers_touch
  | interGroups body => exact Planned.all_none
  | unionGroups body => exact Planned.all_none
  | diffGroups body => exact Planned.all_none

theorem RankOp.covers (o : RankOp) (hvalid : o.valid = true) :
    (o.plan st ns).All (Plan.Covers now ((Op.rank o).passed st now)) := by
  cases o with
  | batchGetRank body =>
    have hkeys : body.keys ≠ [] := ne_nil_of_batchSize hvalid
    refine Planned.all_some (Yields.bind fun ks hks => yields_pure ⟨fun h => ?_, fun h x hx => ?_⟩)
    · have hne : ks ≠ [] := by
        rintro rfl
        have hlen : ([] : List String).length = body.keys.length := mapM_length hks
        exact hkeys (List.length_eq_zero_iff.mp hlen.symm)
      obtain ⟨rk, hrk⟩ := List.exists_mem_of_ne_nil ks hne
      exact h _ (List.mem_map_of_mem hrk)
    · obtain ⟨rk, -, rfl⟩ := List.mem_map.mp hx
      exact h
  | batchAddRank key body =>
    exact Planned.all_some (Yields.bind fun _ _ => Yields.bind fun _ _ => yields_pure (covers_lasting rfl rfl))
  | addRank key body =>
    refine Planned.all_some (Yields.bind fun _ _ => ?_)
    cases body.score.isfinite
    · exact yields_throw
    · exact Yields.bind fun _ _ => yields_pure (covers_lasting rfl rfl)
  | rangeRank key start stop reverse => exact Planned.all_some (Yields.bind fun _ _ => yields_pure (covers_one rfl Iff.rfl))
  | scoreRank key member => exact Planned.all_some (Yields.bind fun _ _ => yields_pure (covers_one rfl Iff.rfl))
  | betweenRank key min max => exact Planned.all_some (Yields.bind fun _ _ => yields_pure (covers_one rfl Iff.rfl))
  | deleteRank key => exact covers_delete
  | removeRank key member => exact Planned.all_some (Yields.bind fun _ _ => yields_pure (covers_one rfl Iff.rfl))
  | incrRank key body =>
    refine Planned.all_some (Yields.bind fun _ _ => ?_)
    cases body.delta.isfinite
    · exact yields_throw
    · exact Yields.bind fun _ _ => yields_pure (covers_none (by simp [KeyCmd.ints]))
  | touchRank key body => exact covers_touch
  | popRank key max => exact Planned.all_some (Yields.bind fun _ _ => yields_pure (covers_one rfl Iff.rfl))

theorem fit_count {count : Int} (h : countInRange count = true) : Fit [count] := by
  simp only [countInRange, decide_eq_true_eq] at h
  simp only [fit_cons, fit_nil, and_true, int64, decide_eq_true_eq]
  omega

theorem EventOp.covers (o : EventOp) (hvalid : o.valid = true) :
    (o.plan st ns).All (Plan.Covers now ((Op.event o).passed st now)) := by
  cases o with
  | batchPublishEvent key body =>
    have hevents : body.events ≠ [] := by
      simp only [EventOp.valid, EventBatchPublishRequest.valid, Bool.and_eq_true] at hvalid
      exact ne_nil_of_batchSize hvalid.1
    refine Planned.all_some (Yields.bind fun _ _ => Yields.bind fun k _ => yields_pure ⟨fun h => ?_, fun h x hx => ?_⟩)
    · obtain ⟨evt, hevt⟩ := List.exists_mem_of_ne_nil body.events hevents
      exact h _ (List.mem_map_of_mem hevt)
    · obtain ⟨evt, -, rfl⟩ := List.mem_map.mp hx
      exact h
  | publishEvent key body =>
    exact Planned.all_some (Yields.bind fun _ _ => Yields.bind fun _ _ => yields_pure (covers_one rfl Iff.rfl))
  | readEvents key lastId count =>
    refine Planned.all_some (Yields.bind fun _ _ => ?_)
    cases streamIdRe lastId
    · exact yields_throw
    · exact yields_pure (covers_one rfl ⟨fun _ => fit_nil, fun _ => fit_count hvalid⟩)
  | createGroup key body => exact Planned.all_some (Yields.bind fun _ _ => yields_pure (covers_one rfl Iff.rfl))
  | readGroup key group consumer count =>
    exact Planned.all_some (Yields.bind fun _ _ => yields_pure (covers_one rfl ⟨fun _ => fit_nil, fun _ => fit_count hvalid⟩))
  | ackEvents key group body =>
    exact Planned.all_some (Yields.bind fun _ _ => Yields.bind fun _ _ => yields_pure (covers_one rfl Iff.rfl))
  | deleteEvent key => exact covers_delete
  | touchEvent key body => exact covers_touch
  | streamInfo key => exact Planned.all_none

/-- A plan passes on what the request says that it passes on. -/
theorem Op.covers (o : Op) (hvalid : o.valid = true) : (o.plan st ns).All (Plan.Covers now (o.passed st now)) := by
  cases o with
  | kv o => exact o.covers hvalid
  | map o => exact o.covers hvalid
  | queue o => exact o.covers
  | group o => exact o.covers hvalid
  | rank o => exact o.covers hvalid
  | event o => exact o.covers hvalid
  | pubsub o => exact Planned.all_none

end Covers

/-! ### The data plane -/

section Data
variable {st : Settings} {client : ClientInfo} {ns : String} {now : Nat} {args : List Int}

abbrev CallFits (now : Nat) (args : List Int) (call : Call) : Prop := Fit (call.ints now args)

theorem fits_event (event errorCode : String) : CallFits now args (.setPendingEvent event errorCode) := fit_nil

theorem fits_metric (reason : String) : CallFits now args (.fireMetric reason) := fit_cons.mpr ⟨rfl, fit_nil⟩

theorem fits_multi (cs : List (String × KeyCmd)) :
    CallFits now args (.redis (.multi cs)) ↔ ∀ x ∈ cs, CallFits now args (.redis (.at x.1 x.2)) := fit_flatMap

/-- The integers of a request that goes on are those that it passes on. -/
def DataFits (st : Settings) (client : ClientInfo) (ns : String) (now : Nat) (o : Op) : Prop :=
  (o.handle st client ns).Calls (CallFits now (o.scriptArgs st)) ↔
    ((∃ operation, o.gate st ns = some (operation, .ok ()) ∧ checkAccess client ns operation = true) → Fit (o.passed st now))

theorem planned_fits {o : Op} {operation : String} {x : Except Exn Plan} (hplan : o.plan st ns = some (operation, x))
    (hgate : o.gate st ns = (o.plan st ns).map fun x => (x.1, x.2.map fun _ => ())) (hvalid : o.valid = true) :
    DataFits st client ns now o := by
  have hfollows : Follows client ns (o.handle st client ns) (o.plan st ns) := Op.follows o
  have hcovers : Yields (Plan.Covers now (o.passed st now)) x := Op.covers o hvalid operation x hplan
  unfold DataFits
  rw [hplan] at hfollows
  rw [calls_follows fits_event fits_metric fits_multi hfollows, hgate, hplan]
  constructor
  · rintro h ⟨operation', hsome, ha⟩
    cases x with
    | error e => cases hsome
    | ok p =>
      cases hsome
      exact (hcovers p rfl).mp (h ha p rfl)
  · rintro h ha p rfl
    exact (hcovers p rfl).mpr (h ⟨operation, rfl, ha⟩)

/-- A request that passes on nothing. -/
theorem silent_fits {o : Op} (hnone : o.passed st now = []) (h : (o.handle st client ns).Calls (CallFits now (o.scriptArgs st))) :
    DataFits st client ns now o := by
  unfold DataFits
  rw [hnone]
  exact ⟨fun _ _ => fit_nil, fun _ => h⟩

theorem push_calls (p : Push) : ((requireWrite client ns).bind fun _ => p.program st ns).Calls (CallFits now args) ↔
    (checkAccess client ns "write" = true → p.check = .ok () → (∃ k, buildKey st.engine ns queuePrefix p.key = .ok k) →
      Fit (args ++ deadlines now (some p.ttl))) := by
  have hpipeline : ∀ (k : String) (f : List Json → Handler Json), (∀ vs, (f vs).Calls (CallFits now args)) →
      (((pipeline [lifetime k p.ttl, (k, .ttl)]).bind f).Calls (CallFits now args) ↔ Fit (deadlines now (some p.ttl))) := by
    intro k f hf
    rw [pipeline_bind, Prog.bind_assoc, calls_sendAll_iff, List.forall_mem_cons, List.forall_mem_singleton]
    · have hlifetime : Fit ((lifetime k p.ttl).2.ints now) ↔ Fit (deadlines now (some p.ttl)) := fit_lifetime k p.ttl
      exact ⟨fun h => hlifetime.mp h.1, fun h => ⟨hlifetime.mpr h, fit_nil⟩⟩
    · intro rs
      show (orRaise Exn.redis f (replies rs)).Calls _
      cases replies rs with
      | error msg => trivial
      | ok vs => exact hf vs
  have hprogram : (p.program st ns).Calls (CallFits now args) ↔ (p.check = .ok () →
      ∀ k, buildKey st.engine ns queuePrefix p.key = .ok k → Fit args ∧ Fit (deadlines now (some p.ttl))) := by
    constructor
    · intro h hcheck k hk
      obtain ⟨hargs, hafter⟩ := calls_script_iff.mp (calls_ofExcept_bind.mp (calls_ofExcept_bind.mp h () hcheck) k hk)
      refine ⟨hargs, (hpipeline k _ ?_).mp (hafter .null)⟩
      exact fun _ => trivial
    · intro h
      refine calls_ofExcept_bind.mpr fun _ hcheck => calls_ofExcept_bind.mpr fun k hk => ?_
      obtain ⟨hargs, hdeadline⟩ := h hcheck k hk
      refine calls_script_iff.mpr ⟨hargs, fun result => ?_⟩
      dsimp only
      split
      · trivial
      · refine (hpipeline k _ ?_).mpr hdeadline
        exact fun _ => trivial
  unfold requireWrite
  rw [calls_requireAccess_iff fits_event fits_metric, hprogram, fit_append]
  refine imp_congr_right fun _ => imp_congr_right fun _ => ⟨?_, fun h k hk => h ⟨k, hk⟩⟩
  rintro h ⟨k, hk⟩
  exact h k hk

theorem push_fits {o : QueueOp} {p : Push} (hpush : o.push st = some p)
    (hgate : (Op.queue o).gate st ns = some ("write", p.check >>= fun _ => buildKey st.engine ns queuePrefix p.key >>= fun _ => pure ()))
    (hpassed : Fit ((Op.queue o).scriptArgs st ++ deadlines now (some p.ttl)) ↔ Fit ((Op.queue o).passed st now)) :
    DataFits st client ns now (.queue o) := by
  have hhandle : (Op.queue o).handle st client ns = (requireWrite client ns).bind fun _ => p.program st ns := QueueOp.pushes hpush
  unfold DataFits
  rw [hhandle, push_calls, hgate, hpassed]
  constructor
  · rintro h ⟨operation, hsome, ha⟩
    obtain ⟨hop, hchecks⟩ := Prod.mk.inj (Option.some.inj hsome)
    obtain ⟨_, hcheck, hkeyed⟩ := bind_ok.mp hchecks
    obtain ⟨k, hk, -⟩ := bind_ok.mp hkeyed
    exact h (hop ▸ ha) hcheck ⟨k, hk⟩
  · rintro h ha hcheck ⟨k, hk⟩
    exact h ⟨"write", by rw [hcheck, hk]; rfl, ha⟩

theorem setOp_calls (op : SetOp) (keys : List String) : (setOp st client op ns keys).Calls (CallFits now args) := by
  refine calls_guard fits_event fits_metric fun _ => Calls.ofExcept_bind fun ks _ => ?_
  exact Calls.bind (calls_gather fit_nil) fun _ => trivial

/-- The integers of a request that goes on to Redis fit exactly when those that no schema bounds do. -/
theorem data_fits (o : Op) (hvalid : o.valid = true) : DataFits st client ns now o := by
  cases hplan : o.plan st ns with
  | some x =>
    refine planned_fits hplan ?_ hvalid
    cases o with
    | queue o => cases o <;> first | rfl | cases hplan
    | _ => rfl
  | none =>
    cases o with
    | kv o =>
      cases o with
      | batchGetKv body =>
        refine silent_fits rfl (calls_guard fits_event fits_metric fun _ => Calls.ofExcept_bind fun ks _ => ?_)
        exact Calls.bind (calls_gather fit_nil) fun _ => trivial
      | _ => cases hplan
    | map o => cases o <;> cases hplan
    | queue o =>
      cases o with
      | pushQueue key body => exact push_fits rfl rfl Iff.rfl
      | batchPushQueue key body =>
        refine push_fits rfl rfl ?_
        have hsize : batchSize body.values.length = true := by
          simp only [Op.valid, QueueOp.valid, QueueBatchPushRequest.valid, Bool.and_eq_true] at hvalid
          exact hvalid.1.1
        have hlength : int64 body.values.length = true := by
          simp only [batchSize, decide_eq_true_eq] at hsize
          simp only [int64, decide_eq_true_eq]
          omega
        have hone : Fit [st.defaults.maxListLength, (body.values.length : Int)] ↔ Fit [st.defaults.maxListLength] := by
          simp [hlength]
        exact fit_append.trans ((and_congr_left fun _ => hone).trans fit_append.symm)
      | _ => cases hplan
    | group o =>
      cases o with
      | interGroups body => exact silent_fits rfl (setOp_calls .inter body.keys)
      | unionGroups body => exact silent_fits rfl (setOp_calls .union body.keys)
      | diffGroups body => exact silent_fits rfl (setOp_calls .diff body.keys)
      | _ => cases hplan
    | rank o => cases o <;> cases hplan
    | event o =>
      cases o with
      | streamInfo key =>
        refine silent_fits rfl (calls_guard fits_event fits_metric fun _ => Calls.ofExcept_bind fun k _ => ?_)
        refine Calls.bind (calls_exceptResponseError (calls_redis fit_nil) fun _ => trivial) fun info => ?_
        exact Calls.bind (calls_exceptResponseError (calls_redis fit_nil) fun _ => trivial) fun _ => trivial
      | _ => cases hplan
    | pubsub o =>
      cases o with
      | publishMessage channel body =>
        refine silent_fits rfl (calls_guard fits_event fits_metric fun _ => Calls.ofExcept_bind fun _ _ => ?_)
        refine Calls.ofExcept_bind fun _ _ => Calls.ofExcept_bind fun _ _ => ?_
        exact Calls.bind (calls_publish fit_nil) fun _ => trivial

end Data

/-! ### The admin endpoints -/

section Admin
variable {st : Settings} {client : ClientInfo} {now : Nat}

theorem requireAdmin_of {f : Unit → Handler Json} (h : client.clientId = "admin") :
    (requireAdmin client).bind f = f () := by
  unfold requireAdmin
  rw [if_pos h]
  rfl

theorem key_calls {ns typeName key : String} {f : String → String → Handler Json}
    (h : ∀ typePrefix k, (f typePrefix k).Calls (CallFits now [])) :
    ((Prog.ofExcept (resolveTypePrefix typeName)).bind fun typePrefix =>
      (Prog.ofExcept (buildKey st.engine ns typePrefix key)).bind (f typePrefix)).Calls (CallFits now []) :=
  Calls.ofExcept_bind fun typePrefix _ => Calls.ofExcept_bind fun k _ => h typePrefix k

theorem sizeInfo_fits (k keyType : String) : (sizeInfo k keyType).Calls (CallFits now []) := by
  unfold sizeInfo
  repeat' split
  all_goals first | exact Calls.bind (calls_redis fit_nil) fun _ => trivial | trivial

theorem setTtl_calls {ns typeName key : String} {body : TtlSetRequest} :
    (setTtl st client ns typeName key body).Calls (CallFits now []) ↔
      (client.clientId = "admin" → ∀ typePrefix, resolveTypePrefix typeName = .ok typePrefix →
        ∀ k, buildKey st.engine ns typePrefix key = .ok k → Fit (deadlines now (some body.ttl))) := by
  constructor
  · intro h hadmin typePrefix hp k hk
    unfold setTtl at h
    simp only [bind_eq, lift_eq, requireAdmin_of hadmin] at h
    have hthere := (calls_redis_iff.mp (calls_ofExcept_bind.mp (calls_ofExcept_bind.mp h typePrefix hp) k hk)).2 (.int 1)
    have hset := (calls_redis_iff.mp hthere).1
    exact (fit_lifetime k body.ttl).mp hset
  · intro h
    refine calls_admin fits_event fits_metric fun hadmin => Calls.ofExcept_bind fun typePrefix hp => ?_
    refine Calls.ofExcept_bind fun k hk => Calls.bind (calls_redis fit_nil) fun there => ?_
    cases there.truthy
    · trivial
    · refine Calls.bind (calls_redis ((fit_lifetime k body.ttl).mpr (h hadmin typePrefix hp k hk))) fun _ => ?_
      exact Calls.bind (calls_redis fit_nil) fun _ => trivial

/-- The endpoints but the one that sets a lifetime pass on no integer but those of SCAN. -/
theorem admin_calls {o : AdminOp} (ho : ∀ ns typeName key body, o ≠ .setTtl ns typeName key body) :
    (o.handle st client).Calls (CallFits now []) := by
  cases o with
  | listKeys ns typeName pattern scan =>
    show (Redgw.listKeys st client ns typeName pattern scan).Calls _
    unfold Redgw.listKeys
    cases filterOr ns with
    | none => exact Calls.ofExcept_bind fun _ _ => trivial
    | some ns =>
      refine Calls.ofExcept_bind fun _ _ => calls_guard fits_event fits_metric fun _ => ?_
      exact Calls.ofExcept_bind fun _ _ => trivial
  | keyInfo ns typeName key =>
    refine calls_guard fits_event fits_metric fun _ => key_calls fun typePrefix k => ?_
    refine Calls.bind (calls_redis fit_nil) fun keyType => ?_
    dsimp only
    split
    · trivial
    · refine Calls.bind (calls_redis fit_nil) fun _ => Calls.bind (calls_redis fit_nil) fun _ => ?_
      exact Calls.bind (sizeInfo_fits k keyType.text) fun _ => trivial
  | setTtl ns typeName key body => exact absurd rfl (ho ns typeName key body)
  | bulkDeleteKeys ns typeName pattern dryRun scanIter =>
    refine calls_admin fits_event fits_metric fun _ => Calls.ofExcept_bind fun _ _ => Calls.ofExcept_bind fun _ _ => ?_
    dsimp only
    split
    · trivial
    · exact Calls.bind (calls_deleteBatches fun _ _ => fit_nil) fun _ => trivial
  | deleteKey ns typeName key =>
    refine calls_admin fits_event fits_metric fun _ => key_calls fun typePrefix k => ?_
    refine Calls.bind (calls_redis fit_nil) fun deleted => ?_
    split <;> trivial
  | getStats limit memory keys => trivial
  | adminAuditOrigin ns typeName key loads =>
    refine calls_admin fits_event fits_metric fun _ => key_calls fun typePrefix k => ?_
    refine Calls.bind (calls_redis fit_nil) fun raw => ?_
    cases raw.isNone
    · exact Calls.bind (calls_redis fit_nil) fun _ => trivial
    · trivial

/-- If the program gets to its end, the integers that it ends with fit. -/
abbrev EndsFit (p : Handler (List Int)) : Prop := p.Ends (fun _ _ => True) fun r => ∀ ns, r = .ok ns → Fit ns

theorem endsFit_pure {ns : List Int} : EndsFit (.pure ns) ↔ Fit ns := by
  refine ⟨fun h => h ns rfl, fun h ms hms => ?_⟩
  cases hms
  exact h

theorem endsFit_ofExcept_bind {α : Type} {x : Except Exn α} {f : α → Handler (List Int)} :
    EndsFit ((Prog.ofExcept x).bind f) ↔ ∀ a, x = .ok a → EndsFit (f a) := by
  cases x with
  | ok a =>
    refine ⟨fun h b hb => ?_, fun h => h a rfl⟩
    cases hb
    exact h
  | error e => exact ⟨fun _ _ h => (by cases h), fun _ _ h => (by cases h)⟩

theorem endsFit_requireAccess {ns operation : String} {f : Unit → Handler (List Int)} :
    EndsFit ((requireAccess client ns operation).bind f) ↔ (checkAccess client ns operation = true → EndsFit (f ())) := by
  unfold requireAccess
  cases checkAccess client ns operation with
  | true => exact ⟨fun h _ => h, fun h => h rfl⟩
  | false => exact ⟨fun _ h => (by cases h), fun _ _ _ _ _ _ h => (by cases h)⟩

theorem endsFit_requireAdmin {f : Unit → Handler (List Int)} (h : EndsFit (f ())) : EndsFit ((requireAdmin client).bind f) := by
  unfold requireAdmin
  split
  · exact h
  · exact fun _ _ _ _ _ h => (by cases h)

/-- The cursor is passed on as it is, if the client may list the keys. -/
theorem listKeys_fits {ns typeName : Option String} {pattern : String} {scan : String → Nat × List String} {page : Page}
    (hpage : page.valid = true) : EndsFit (AdminOp.scan st client page (.listKeys ns typeName pattern scan)) ↔
      (MayList st client ns typeName pattern → Fit [page.cursor]) := by
  have hcount : int64 page.count = true := by
    simp only [Page.valid, decide_eq_true_eq] at hpage
    simp only [int64, decide_eq_true_eq]
    omega
  have hend : EndsFit ((Prog.ofExcept (buildScanPattern ns typeName pattern)).bind fun _ => .pure [page.cursor, page.count]) ↔
      ((∃ glob, buildScanPattern ns typeName pattern = .ok glob) → Fit [page.cursor]) := by
    rw [endsFit_ofExcept_bind]
    simp only [endsFit_pure, fit_cons, fit_nil, hcount, and_true, forall_exists_index]
  unfold MayList
  cases hfilter : filterOr ns with
  | none =>
    have hprogram : AdminOp.scan st client page (.listKeys ns typeName pattern scan) =
        (Prog.ofExcept (buildScanPattern ns typeName pattern)).bind fun _ => .pure [page.cursor, page.count] := by
      unfold AdminOp.scan
      dsimp only
      rw [hfilter]
      rfl
    rw [hprogram, hend]
    simp
  | some n =>
    have hprogram : AdminOp.scan st client page (.listKeys ns typeName pattern scan) =
        (Prog.ofExcept (validateNs st.engine n)).bind fun _ => (requireAccess client n "read").bind fun _ =>
          (Prog.ofExcept (buildScanPattern ns typeName pattern)).bind fun _ => .pure [page.cursor, page.count] := by
      unfold AdminOp.scan
      dsimp only
      rw [hfilter]
      rfl
    rw [hprogram, endsFit_ofExcept_bind]
    simp only [endsFit_requireAccess, hend, Option.some.injEq, forall_eq', and_imp, forall_exists_index]

end Admin

/-! ### Every request -/

/-- Every integer that an accepted request passes to Redis fits into 64 bits, exactly when the request does not
    pass its checks or the integers that no schema bounds fit, the deadline of its lifetime among them. -/
theorem integers_fit_iff (st : Settings) (client : Option ClientInfo) (now : Nat) (x : ApiRequest) (hvalid : x.valid = true) :
    x.IntegersFit st client now ↔ (x.Admitted st client → Fit (x.unbounded st now)) := by
  cases x with
  | data ns o =>
    cases client with
    | none =>
      refine ⟨?_, fun _ => ⟨fits_event _ _, fun _ => ⟨fits_metric _, fun _ => trivial⟩⟩⟩
      rintro - ⟨c, operation, hc, -⟩
      cases hc
    | some c =>
      have hendpoint : endpoint st (some c) ns o = o.handle st c ns := by
        have hv : o.valid = true := hvalid
        simp [endpoint, verifyApiKey, hv]
      show (endpoint st (some c) ns o).Calls _ ↔ _
      rw [hendpoint]
      have hdata : DataFits st c ns now o := data_fits o hvalid
      refine hdata.trans (imp_congr_left ?_)
      constructor
      · rintro ⟨operation, hgate, ha⟩
        exact ⟨c, operation, rfl, hgate, ha⟩
      · rintro ⟨_, operation, hc, hgate, ha⟩
        cases hc
        exact ⟨operation, hgate, ha⟩
  | admin o page =>
    obtain ⟨ho, hpage⟩ : o.valid = true ∧ page.valid = true := by simpa [ApiRequest.valid] using hvalid
    cases client with
    | none =>
      have hcalls : (adminEndpoint st none o).Calls (CallFits now []) :=
        ⟨fits_event _ _, fun _ => ⟨fits_metric _, fun _ => trivial⟩⟩
      refine ⟨fun _ hadmitted => ?_, fun _ => ⟨hcalls, fun _ h => (by cases h)⟩⟩
      cases o with
      | listKeys ns typeName pattern scan =>
        obtain ⟨c, hc, -⟩ := hadmitted
        cases hc
      | setTtl ns typeName key body =>
        obtain ⟨c, _, _, hc, -⟩ := hadmitted
        cases hc
      | _ => exact fit_nil
    | some c =>
      have hendpoint : adminEndpoint st (some c) o = o.handle st c := by simp [adminEndpoint, verifyApiKey, ho]
      show ((adminEndpoint st (some c) o).Calls _ ∧ ∀ c', some c = some c' → EndsFit (o.scan st c' page)) ↔ _
      rw [hendpoint]
      simp only [Option.some.injEq, forall_eq']
      cases o with
      | listKeys ns typeName pattern scan =>
        rw [and_iff_right (admin_calls fun _ _ _ _ h => (by cases h)), listKeys_fits hpage]
        refine imp_congr_left ⟨fun h => ⟨c, rfl, h⟩, ?_⟩
        rintro ⟨_, hc, h⟩
        cases hc
        exact h
      | setTtl ns typeName key body =>
        have hscan : EndsFit (AdminOp.scan st c page (.setTtl ns typeName key body)) := endsFit_pure.mpr fit_nil
        rw [and_iff_left hscan]
        refine setTtl_calls.trans ⟨?_, fun h hadmin typePrefix hp k hk => h ⟨c, typePrefix, k, rfl, hadmin, hp, hk⟩⟩
        rintro h ⟨_, typePrefix, k, hc, hadmin, hp, hk⟩
        cases hc
        exact h hadmin typePrefix hp k hk
      | bulkDeleteKeys ns typeName pattern dryRun scanIter =>
        have hscan : EndsFit (AdminOp.scan st c page (.bulkDeleteKeys ns typeName pattern dryRun scanIter)) :=
          endsFit_requireAdmin (endsFit_ofExcept_bind.mpr fun _ _ => endsFit_ofExcept_bind.mpr fun _ _ =>
            endsFit_pure.mpr (fit_cons.mpr ⟨rfl, fit_nil⟩))
        exact ⟨fun _ _ => fit_nil, fun _ => ⟨admin_calls fun _ _ _ _ h => (by cases h), hscan⟩⟩
      | getStats limit memory keys =>
        have hscan : EndsFit (AdminOp.scan st c page (.getStats limit memory keys)) :=
          endsFit_pure.mpr (fit_cons.mpr ⟨rfl, fit_nil⟩)
        exact ⟨fun _ _ => fit_nil, fun _ => ⟨admin_calls fun _ _ _ _ h => (by cases h), hscan⟩⟩
      | _ => exact ⟨fun _ _ => fit_nil, fun _ => ⟨admin_calls fun _ _ _ _ h => (by cases h), endsFit_pure.mpr fit_nil⟩⟩

/-! ### One request -/

/-- A trim that keeps more than a 64-bit integer. -/
def trimX : ApiRequest := .data "app" (.queue (.trimQueue "x" ⟨9223372036854775809⟩))

theorem integers_fit_iff_trim :
    trimX.IntegersFit {} (some appClient) 0 ↔ (trimX.Admitted {} (some appClient) → Fit (trimX.unbounded {} 0)) :=
  integers_fit_iff {} (some appClient) 0 trimX (by decide)

/-- The schema accepts the trim, which passes on an integer that does not fit. -/
theorem trim_leaves_range : trimX.valid = true ∧ ¬ trimX.IntegersFit {} (some appClient) 0 := by
  refine ⟨by decide, fun h => ?_⟩
  have hfits : Fit [-9223372036854775809, -1] := h.1
  exact absurd (hfits _ List.mem_cons_self) (by decide)

end Redgw
