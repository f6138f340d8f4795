import Redgw.Lib.Register
import Redgw.Redis.Writes
import Redgw.Theorems.KeyCodec
import Redgw.Theorems.Linearizable
import Redgw.Theorems.Reach

/-! # A string as a register

However a key of the type `string` is read, written and deleted by parallel requests, among others that are not about it,
it is a register with a lifetime: each access is answered as in its turn. `PUT .../nx` makes a lock of it. -/

namespace Redgw
open Redis Prog Fallible Pool

/-- What a request does to the key of a string, and what it is told when it finds this value. The TTL is not told here. -/
structure KvAccess where
  key : String
  op : Register.Op String
  told : Option String → Except Exn Json

/-- Without a TTL a value is kept for good. -/
def lifeOf (ttl : Int) : Option Nat := if 0 < ttl then some (ttl * 1000).toNat else none

def KvOp.access (st : Settings) (ns : String) : KvOp → Option KvAccess
  | getKv key => some {
      key := key, op := .look
      told := fun
        | none => .error (notFound key ns)
        | some v => .ok (ok (.obj [("value", .str v)]) ns key "string") }
  | existsKv key => some {
      key := key, op := .look
      told := fun v => .ok (ok (.obj [("exists", .bool v.isSome)]) ns key "string") }
  | setKv key body => some {
      key := key, op := .put body.value (lifeOf (resolveTtl st body.ttl))
      told := fun _ => .ok (ok (.obj [("value", .str body.value)]) ns key "string") }
  | setKvNx key body => some {
      key := key, op := .putNew body.value (lifeOf (resolveTtl st body.ttl))
      told := fun
        | none => .ok (ok (.obj [("acquired", .bool true), ("value", .str body.value)]) ns key "string")
        | some _ => .error (error "KEY_EXISTS" s!"Key '{key}' already exists in namespace '{ns}'" 409) }
  | deleteKv key => some {
      key := key, op := .drop
      told := fun
        | none => .error (notFound key ns)
        | some _ => .ok (ok (.obj [("deleted", .bool true)]) ns key "string") }
  | _ => none

/-- The access of a job to this key. -/
def Job.access (st : Settings) (ns key : String) : Job → Option KvAccess
  | .data q =>
    match q.op with
    | .kv o => if q.ns = ns then (o.access st ns).filter fun a => decide (a.key = key) else none
    | _ => none
  | _ => none

def KvOp.keys : KvOp → List String
  | batchGetKv body => body.keys
  | batchSetKv body => body.items.items.map (·.1)
  | getKv key | setKv key _ | deleteKv key | existsKv key | incrKv key _ | touchKv key _ | setKvNx key _ => [key]

/-- The request is about other keys: of another namespace, of another type, or with other names. -/
def Job.elsewhere (ns key : String) : Job → Bool
  | .data q =>
    match q.op with
    | .kv o => decide (q.ns ≠ ns ∨ key ∉ o.keys)
    | _ => true
  | _ => false

/-- An answer that no access is told: it is refused for what it asks, or Redis has refused it. -/
def Refusal (r : Response) : Prop := r.status ∉ [200, 404, 409]

/-- The key holds what the register keeps. -/
def HoldsKept (e : Option Entry) (s : Option (Register.Kept String)) : Prop := e = s.map fun x => ⟨.str x.value, x.deadline⟩

section Register
variable {e : Option Entry} {s : Option (Register.Kept String)} {now : Nat}

theorem found_live (h : HoldsKept e s) (now : Nat) : Register.found now s = none ∧ live now e = none ∨
    ∃ v d, Register.found now s = some v ∧ live now e = some ⟨.str v, d⟩ := by
  subst h
  cases s with
  | none => exact Or.inl ⟨rfl, rfl⟩
  | some x =>
    obtain ⟨v, d⟩ := x
    have hlive : live now (some ⟨.str v, d⟩) = if d.all fun d => decide (now < d) then some ⟨.str v, d⟩ else none := by
      rw [live, Option.filter_some]
      cases d <;> rfl
    have hfound : Register.found now (some ⟨v, d⟩) = if d.all fun d => decide (now < d) then some v else none := by
      rw [Register.found, Option.filter_some]
      split <;> rfl
    rw [Option.map_some, hlive, hfound]
    split
    · exact Or.inr ⟨v, d, rfl, rfl⟩
    · exact Or.inl ⟨rfl, rfl⟩

theorem ahead_eq {ttl : Int} (httl : 0 < ttl) : ahead now ttl = now + (ttl * 1000).toNat := by
  unfold ahead
  omega

theorem holdsKept_put (now : Nat) (v : String) (ttl : Int) :
    HoldsKept (some ⟨.str v, if 0 < ttl then some (ahead now ttl) else none⟩) (some ⟨v, (lifeOf ttl).map (now + ·)⟩) := by
  unfold HoldsKept lifeOf
  split
  · rename_i httl
    simp [ahead_eq httl]
  · rfl

end Register

/-! ### One access -/

/-- The outcome of an access, alone: it is told what it finds, or it is refused and the key is as it was. -/
inductive Accessed (k : String) (a : KvAccess) (now : Nat) (s : Option (Register.Kept String)) : Except Exn Json × Store → Prop
  | did {x : Except Exn Json} {t : Store} (hx : SameButTtl x (a.told (Register.found now s)))
    (h : HoldsKept (t k) (Register.Turn.apply s ⟨a.op, now⟩)) : Accessed k a now s (x, t)
  | refused {e : Exn} {t : Store} (he : Refusal (.of (.error e))) (h : HoldsKept (t k) s) : Accessed k a now s (.error e, t)

section Access
variable {R : Server} {st : Settings} {ns key k : String} {now : Nat} {s : Store} {m : Option (Register.Kept String)} {a : KvAccess}

theorem refusal_redis (msg : String) : Refusal (.of (.error (.redis msg))) := (by decide : 500 ∉ [200, 404, 409])

theorem accessed_refused {event code reason c msg : String} {status : Nat} (hstatus : status ∉ [200, 404, 409]) (hk : ¬Own k)
    (hs : HoldsKept (s k) m) : Accessed k a now m
      (Alone R now (.call (.setPendingEvent event code) fun _ => .call (.fireMetric reason) fun _ => .raise (error c msg status)) s) := by
  rw [alone_refused]
  refine .refused hstatus ?_
  rw [agree_fireMetric reason now s k hk]
  exact hs

/-- An access is what its plan does, if it is allowed at all. -/
theorem accessed_planned {client : Option ClientInfo} {o : KvOp} {operation : String} {y : Except Exn Plan}
    (hk : ¬Own k) (hs : HoldsKept (s k) m) (hplan : o.plan st ns = some (operation, y))
    (hy : ∀ e, y = .error e → Refusal (.of (.error e))) (hp : ∀ p, y = .ok p → Accessed k a now m (Alone R now (p.program ns) s)) :
    Accessed k a now m (Alone R now (endpoint st client ns (.kv o)) s) := by
  cases client with
  | none => exact accessed_refused (by decide) hk hs
  | some c =>
    rw [endpoint]
    cases hv : (Op.kv o).valid with
    | false => exact .refused (e := .unprocessable) (by decide : 422 ∉ [200, 404, 409]) hs
    | true =>
      show Accessed k a now m (Alone R now ((Op.kv o).handle st c ns) s)
      rw [Op.follows (.kv o) operation y hplan]
      by_cases ha : checkAccess c ns operation = true
      · rw [requireAccess, if_pos ha]
        cases hy' : y with
        | error e => exact .refused (hy e hy') hs
        | ok p => exact hp p hy'
      · rw [requireAccess, if_neg ha]
        exact accessed_refused (by decide) hk hs

/-- One command that is a write: what it leaves, or an error of Redis. -/
theorem accessed_one {p : Plan} {c : KeyCmd} (hp : p.sending = .oneByOne) (hcs : p.commands = [(k, c)])
    (herror : ∀ msg, p.onError msg = .redis msg) (hs : HoldsKept (s k) m)
    (h : (∃ v, R.onKey c now (s k) = (.ok v, (R.onKey c now (s k)).2) ∧
        SameButTtl (p.answer ns (.ok [v])) (a.told (Register.found now m)) ∧
        HoldsKept (R.onKey c now (s k)).2 (Register.Turn.apply m ⟨a.op, now⟩)) ∨
      ∃ msg, R.onKey c now (s k) = (.error msg, s k)) : Accessed k a now m (Alone R now (p.program ns) s) := by
  rw [alone_one hp hcs]
  rcases h with ⟨v, hreply, htold, hkept⟩ | ⟨msg, hreply⟩
  · have hv : (R.atKey k c now s).1 = .ok v := congrArg Prod.fst hreply
    rw [hv]
    refine .did htold ?_
    rw [Server.atKey_self]
    exact hkept
  · have hmsg : (R.atKey k c now s).1 = .error msg := congrArg Prod.fst hreply
    rw [hmsg]
    show Accessed k a now m (.error (p.onError msg), _)
    rw [herror]
    refine .refused (refusal_redis msg) ?_
    rw [Server.atKey_self, hreply]
    exact hs

theorem accessed_setKv (hW : R.Writes) {body : KvSetRequest} {client : Option ClientInfo}
    (hk : buildKey st.engine ns kvPrefix key = .ok k) (hs : HoldsKept (s k) m) (ha : (KvOp.setKv key body).access st ns = some a) :
    Accessed k a now m (Alone R now (endpoint st client ns (.kv (.setKv key body))) s) := by
  cases ha
  refine accessed_planned (KeyOf.not_own ⟨kvPrefix, by decide, key, hk⟩) hs rfl (fun e he => ?_) fun p hp => ?_
  · rw [hk] at he
    unfold checkValueSize at he
    split at he
    · cases he
      exact (by decide : 400 ∉ [200, 404, 409])
    · cases he
  · rw [hk] at hp
    unfold checkValueSize at hp
    split at hp
    · cases hp
    · cases hp
      refine accessed_one rfl rfl (fun _ => rfl) hs ?_
      have hput := holdsKept_put now body.value (resolveTtl st body.ttl)
      by_cases httl : 0 < resolveTtl st body.ttl
      · rw [if_pos httl] at hput ⊢
        rcases hW.setex _ now httl with h | ⟨msg, h⟩
        · refine Or.inl ⟨.bool true, by rw [h], Or.inr ⟨_, _, _, _, _, _, rfl, rfl⟩, ?_⟩
          rw [h]
          exact hput
        · exact Or.inr ⟨msg, h _ _⟩
      · rw [if_neg httl] at hput ⊢
        refine Or.inl ⟨.bool true, by rw [hW.set], Or.inr ⟨_, _, _, _, _, _, rfl, rfl⟩, ?_⟩
        rw [hW.set]
        exact hput

/-- The plan of a request that checks nothing but its key. -/
theorem accessed_keyed {o : KvOp} {operation : String} {p : Plan} {client : Option ClientInfo}
    (hk : buildKey st.engine ns kvPrefix key = .ok k) (hs : HoldsKept (s k) m) (hplan : o.plan st ns = some (operation, .ok p))
    (hp : Accessed k a now m (Alone R now (p.program ns) s)) :
    Accessed k a now m (Alone R now (endpoint st client ns (.kv o)) s) := by
  refine accessed_planned (KeyOf.not_own ⟨kvPrefix, by decide, key, hk⟩) hs hplan (fun e he => by cases he) fun p' hp' => ?_
  cases hp'
  exact hp

theorem accessed_setKvNx (hW : R.Writes) {body : KvSetRequest} {client : Option ClientInfo}
    (hk : buildKey st.engine ns kvPrefix key = .ok k) (hs : HoldsKept (s k) m) (ha : (KvOp.setKvNx key body).access st ns = some a) :
    Accessed k a now m (Alone R now (endpoint st client ns (.kv (.setKvNx key body))) s) := by
  cases ha
  refine accessed_keyed hk hs (by rw [KvOp.plan, hk]; rfl) ?_
  have hcommand : (if 0 < resolveTtl st body.ttl then KeyCmd.set body.value (some (resolveTtl st body.ttl)) true
      else .set body.value none true) = .set body.value (if 0 < resolveTtl st body.ttl then some (resolveTtl st body.ttl) else none) true := by
    split <;> rfl
  refine accessed_one rfl (by rw [hcommand]) (fun _ => rfl) hs ?_
  generalize hex : (if 0 < resolveTtl st body.ttl then some (resolveTtl st body.ttl) else none) = ex
  rcases found_live hs now with ⟨hfound, hlive⟩ | ⟨v, d, hfound, hlive⟩
  · have hpos : ∀ ttl, ex = some ttl → 0 < ttl := by
      rintro ttl rfl
      split at hex
      · rename_i httl
        cases hex
        exact httl
      · cases hex
    refine (hW.setNx body.value ex now (s k) hlive hpos).imp (fun h => ⟨.bool true, by rw [h], ?_, ?_⟩) id
    · rw [hfound]
      exact Or.inr ⟨_, _, _, _, _, _, rfl, rfl⟩
    · have hput := holdsKept_put now body.value (resolveTtl st body.ttl)
      have hdeadline : (if 0 < resolveTtl st body.ttl then some (ahead now (resolveTtl st body.ttl)) else none) = ex.map (ahead now) := by
        rw [← hex]
        split <;> rfl
      rw [hdeadline] at hput
      rw [h, Register.Turn.apply, hfound]
      exact hput
  · refine (hW.setNxThere body.value ex now (s k) (by rw [hlive]; rfl)).imp (fun h => ⟨.null, by rw [h], ?_, ?_⟩) id
    · rw [hfound]
      exact .refl _
    · rw [h, Register.Turn.apply, hfound]
      exact hs

theorem accessed_existsKv (hL : R.Lifetimes) {client : Option ClientInfo} (hk : buildKey st.engine ns kvPrefix key = .ok k)
    (hs : HoldsKept (s k) m) (ha : (KvOp.existsKv key).access st ns = some a) :
    Accessed k a now m (Alone R now (endpoint st client ns (.kv (.existsKv key))) s) := by
  cases ha
  refine accessed_keyed hk hs (by rw [KvOp.plan, hk]; rfl) (accessed_one rfl rfl (fun _ => rfl) hs ?_)
  refine Or.inl ⟨_, by rw [hL.exists], ?_, ?_⟩
  · rcases found_live hs now with ⟨hfound, hlive⟩ | ⟨v, d, hfound, hlive⟩ <;> rw [hfound, hlive] <;> exact .refl _
  · rw [hL.exists]
    exact hs

theorem accessed_deleteKv (hL : R.Lifetimes) {client : Option ClientInfo} (hk : buildKey st.engine ns kvPrefix key = .ok k)
    (hs : HoldsKept (s k) m) (ha : (KvOp.deleteKv key).access st ns = some a) :
    Accessed k a now m (Alone R now (endpoint st client ns (.kv (.deleteKv key))) s) := by
  cases ha
  refine accessed_keyed hk hs (by rw [KvOp.plan, deletePlan, hk]; rfl) (accessed_one rfl rfl (fun _ => rfl) hs ?_)
  refine Or.inl ⟨_, by rw [hL.del], ?_, ?_⟩
  · rcases found_live hs now with ⟨hfound, hlive⟩ | ⟨v, d, hfound, hlive⟩ <;> rw [hfound, hlive] <;> exact .refl _
  · rw [hL.del]
    rfl

theorem accessed_getKv (hR : R.Lawful) (hL : R.Lifetimes) (hS : R.Strings) {client : Option ClientInfo}
    (hk : buildKey st.engine ns kvPrefix key = .ok k) (hs : HoldsKept (s k) m) (ha : (KvOp.getKv key).access st ns = some a) :
    Accessed k a now m (Alone R now (endpoint st client ns (.kv (.getKv key))) s) := by
  cases ha
  refine accessed_keyed hk hs (by rw [KvOp.plan, hk]; rfl) ?_
  rw [alone_two rfl rfl, hL.atTtl]
  have hkept : HoldsKept ((R.atKey k .get now s).2 k) m := by
    rw [Server.atKey_self, hR.reads .get rfl]
    exact hs
  have hreply : (R.atKey k .get now s).1 = (R.onKey .get now (s k)).1 := rfl
  refine .did ?_ hkept
  rw [hreply]
  rcases found_live hs now with ⟨hfound, hlive⟩ | ⟨v, d, hfound, hlive⟩
  · rw [hfound, hS.getMissing now (s k) hlive]
    exact .refl _
  · rw [hfound, hS.get v d now (s k) hlive]
    exact Or.inr ⟨_, _, _, _, _, _, rfl, rfl⟩

/-- Whatever the access is. -/
theorem accessed (hR : R.Lawful) (hL : R.Lifetimes) (hW : R.Writes) (hS : R.Strings) {o : KvOp} (ha : o.access st ns = some a)
    (hk : buildKey st.engine ns kvPrefix a.key = .ok k) (hs : HoldsKept (s k) m) (client : Option ClientInfo) :
    Accessed k a now m (Alone R now (endpoint st client ns (.kv o)) s) := by
  have hkey : ∀ {key : String}, a.key = key → buildKey st.engine ns kvPrefix key = .ok k := fun h => h ▸ hk
  cases o with
  | getKv key => exact accessed_getKv hR hL hS (hkey (by cases ha; rfl)) hs ha
  | existsKv key => exact accessed_existsKv hL (hkey (by cases ha; rfl)) hs ha
  | setKv key body => exact accessed_setKv hW (hkey (by cases ha; rfl)) hs ha
  | setKvNx key body => exact accessed_setKvNx hW (hkey (by cases ha; rfl)) hs ha
  | deleteKv key => exact accessed_deleteKv hL (hkey (by cases ha; rfl)) hs ha
  | _ => cases ha

theorem access_eq_some {j : Job} (h : j.access st ns key = some a) :
    ∃ (q : Request) (o : KvOp), j = .data q ∧ q.ns = ns ∧ q.op = .kv o ∧ o.access st ns = some a ∧ a.key = key := by
  cases j with
  | data q =>
    unfold Job.access at h
    dsimp only at h
    split at h
    · rename_i o hop
      split at h
      · rename_i hns
        obtain ⟨ha, hkey⟩ := Option.filter_eq_some_iff.mp h
        exact ⟨q, o, rfl, hns, hop, ha, of_decide_eq_true hkey⟩
      · cases h
    · cases h
  | admin q => cases h
  | statusTick pid => cases h

theorem access_oneStep {j : Job} (h : j.access st ns key = some a) : j.oneStep st = true := by
  obtain ⟨q, o, rfl, -, hop, ha, -⟩ := access_eq_some h
  rw [Job.oneStep, hop]
  cases o with
  | touchKv key body => cases ha
  | _ => rfl

end Access

/-! ### Requests about other keys -/

section Elsewhere
variable {R : Server} {st : Settings} {ns key k : String}

theorem KvOp.plan_keys (o : KvOp) :
    Planned.All (Plan.On fun k => ∃ key ∈ o.keys, buildKey st.engine ns kvPrefix key = .ok k) (o.plan st ns) := by
  cases o with
  | batchGetKv body => exact Planned.all_none
  | batchSetKv body =>
    refine Planned.all_some (Yields.bind fun _ _ => Yields.bind fun cs hcs => yields_pure fun y hy => ?_)
    obtain ⟨item, hitem, k, hk, hy⟩ := mem_queueItems hcs hy
    rw [List.mem_singleton.mp hy]
    exact ⟨item.1, List.mem_map.mpr ⟨item, hitem, rfl⟩, hk⟩
  | getKv key => exact Planned.all_some (Yields.bind fun k hk => yields_pure (on_two ⟨key, by simp [keys], hk⟩ rfl))
  | setKv key body =>
    exact Planned.all_some (Yields.bind fun _ _ => Yields.bind fun k hk => yields_pure (on_one ⟨key, by simp [keys], hk⟩ rfl))
  | deleteKv key => exact Planned.all_some (Yields.bind fun k hk => yields_pure (on_one ⟨key, by simp [keys], hk⟩ rfl))
  | existsKv key => exact Planned.all_some (Yields.bind fun k hk => yields_pure (on_one ⟨key, by simp [keys], hk⟩ rfl))
  | incrKv key body => exact Planned.all_some (Yields.bind fun k hk => yields_pure (on_two ⟨key, by simp [keys], hk⟩ rfl))
  | touchKv key body => exact Planned.all_some (Yields.bind fun k hk => yields_pure (on_three ⟨key, by simp [keys], hk⟩ rfl))
  | setKvNx key body => exact Planned.all_some (Yields.bind fun k hk => yields_pure (on_one ⟨key, by simp [keys], hk⟩ rfl))

theorem KvOp.reaches_other {client : ClientInfo} {o : KvOp} (hk : buildKey st.engine ns kvPrefix key = .ok k) (ho : key ∉ o.keys)
    (hplan : o.plan st ns ≠ none) : (o.handle st client ns).Calls (Reaches fun k' => k' ≠ k) := by
  obtain ⟨⟨operation, x⟩, hx⟩ := Option.ne_none_iff_exists'.mp hplan
  rw [o.follows operation x hx]
  refine reaches_guard (Calls.ofExcept_bind fun p hp => reaches_program fun y hy => ?_)
  obtain ⟨key', hkey', hk'⟩ := o.plan_keys operation x hx p hp y hy
  rintro rfl
  obtain ⟨-, -, rfl⟩ := built_inj (by decide) (by decide) hk' hk
  exact ho hkey'

/-- What reaches other keys only leaves this one. -/
theorem alone_elsewhere (hk : ¬Own k) {p : Handler Json} (hp : p.Calls (Reaches fun k' => k' ≠ k)) (now : Nat) (s : Store) :
    (Alone R now p s).2 k = s k := by
  refine (run_keeps (K := fun s t : Store => s k = t k) (fun _ => rfl) (fun _ _ _ => Eq.trans) (fun c hc _ s => ?_) hp s).symm
  cases c with
  | redis c => exact (Server.exec_ne fun hmem => hc k hmem rfl).symm
  | setPendingEvent event errorCode => rfl
  | fireMetric reason => exact (agree_fireMetric reason now s k hk).symm

theorem atOnce_elsewhere (hR : R.Lawful) (hk : buildKey st.engine ns kvPrefix key = .ok k) {j : Job}
    (hj : j.elsewhere ns key = true) (now : Nat) (s : Store) : (j.atOnce R st now s).2 k = s k := by
  have hown : ¬Own k := KeyOf.not_own ⟨kvPrefix, by decide, key, hk⟩
  cases j with
  | admin q => cases hj
  | statusTick pid => cases hj
  | data q =>
    have hother : (∀ c, (q.op.handle st c q.ns).Calls (Reaches fun k' => k' ≠ k)) → (Alone R now (endpoint st q.client q.ns q.op) s).2 k = s k :=
      fun h => alone_elsewhere hown (endpoint_calls (fun _ _ => trivial) (fun _ => trivial) fun c _ => h c) now s
    unfold Job.elsewhere at hj
    dsimp only at hj
    split at hj
    · rename_i o hop
      rcases of_decide_eq_true hj with hns | hkeys
      · exact hother fun c => Op.reaches_other (by decide) hk fun h => hns h.1
      · by_cases hplan : o.plan st ns = none
        · cases o with
          | batchGetKv body =>
            have hwatch : (Job.data q).watches = true := by simp [Job.watches, hop, Op.use, KvOp.use]
            exact (atOnce_watches hR hwatch now s k hown).symm
          | _ => cases hplan
        · by_cases hns : q.ns = ns
          · refine hother fun c => ?_
            rw [hop, hns]
            exact KvOp.reaches_other hk hkeys hplan
          · exact hother fun c => Op.reaches_other (by decide) hk fun h => hns h.1
    · rename_i hop
      refine hother fun c => Op.reaches_other (by decide) hk fun h => ?_
      cases hkind : q.op with
      | kv o => exact hop o hkind
      | pubsub o =>
        rw [hkind] at h
        cases h.2
      | _ =>
        rw [hkind] at h
        exact absurd (Option.some.inj h.2) (by decide)

end Elsewhere

/-! ### Runs -/

/-- The register that the key is. -/
def registerAt (st : Settings) (ns key k : String) :
    Object Nat Store Job (Except Exn Json) (Option (Register.Kept String)) (Register.Turn String) where
  apply := Register.Turn.apply
  Holds m s := HoldsKept (s k) m
  Moves e τ m x := ∃ a, e.request.access st ns key = some a ∧ τ = ⟨a.op, e.env⟩ ∧ SameButTtl x (a.told (Register.found e.env m))
  Idle e x := ∀ a, e.request.access st ns key = some a → ∃ error, x = .error error ∧ Refusal (.of (.error error))

/-- The jobs of these runs: they access the key, or only read, or are of one step and about other keys. -/
def Job.Beside (st : Settings) (ns key : String) (j : Job) : Prop :=
  (∃ a, j.access st ns key = some a) ∨ j.watches = true ∨ j.oneStep st = true ∧ j.elsewhere ns key = true

/-- The turns of a key in a run, each with the number of its job. A turn is at a step of its job. -/
structure KvTurns (st : Settings) (ns key k : String) (acts : List (Pool.Act Job Nat)) (t : Gateway)
    (turns : List (Nat × Register.Turn String)) : Prop where
  once : (turns.map (·.1)).Nodup
  own : ∀ x ∈ turns, (∃ j a, (started acts)[x.1]? = some j ∧ j.access st ns key = some a ∧ x.2.op = a.op) ∧
    .resume x.1 x.2.time ∈ acts
  data : HoldsKept (t.state k) (Register.after (turns.map (·.2)))
  answers : ∀ i j a p, (started acts)[i]? = some j → j.access st ns key = some a → t.programs[i]? = some p → Ended p →
    ∃ x, p = .pure (some (.of x)) ∧
      ((∃ before e after, turns = before ++ (i, e) :: after ∧ e.op = a.op ∧
          SameButTtl x (a.told (Register.found e.time (Register.after (before.map (·.2)))))) ∨
        i ∉ turns.map (·.1) ∧ Refusal (.of x))

section Run
variable {R : Server} {st : Settings} {ns key k : String} {acts : List (Pool.Act Job Nat)} {t : Gateway}

theorem registerAt_access (hR : R.Lawful) (hL : R.Lifetimes) (hW : R.Writes) (hS : R.Strings)
    (hk : buildKey st.engine ns kvPrefix key = .ok k) {e : Turn Nat Job} {a : KvAccess}
    (ha : e.request.access st ns key = some a) : (registerAt st ns key k).Turns (gatewaySpec R st) e := by
  intro m s hs
  obtain ⟨q, o, hq, hns, hop, haccess, hkey⟩ := access_eq_some ha
  have halone : Accessed k a e.env m ((gatewaySpec R st).apply e.request e.env s) := by
    have hat : (gatewaySpec R st).apply e.request e.env s = Alone R e.env (endpoint st q.client ns (.kv o)) s := by
      rw [hq, ← hns, ← hop]
      rfl
    rw [hat]
    exact accessed hR hL hW hS haccess (hkey ▸ hk) hs q.client
  generalize (gatewaySpec R st).apply e.request e.env s = y at halone ⊢
  cases halone with
  | did hx h => exact Or.inl ⟨_, ⟨a, ha, rfl, hx⟩, h⟩
  | refused he h => exact Or.inr ⟨fun _ _ => ⟨_, rfl, he⟩, h⟩

/-- A job that leaves the key alone, and does not access it. -/
theorem registerAt_idle {e : Turn Nat Job} (hnone : e.request.access st ns key = none)
    (hsame : ∀ s, ((gatewaySpec R st).apply e.request e.env s).2 k = s k) :
    (registerAt st ns key k).Turns (gatewaySpec R st) e := by
  intro m s hs
  refine Or.inr ⟨fun a ha => ?_, ?_⟩
  · rw [hnone] at ha
    cases ha
  · show HoldsKept (((gatewaySpec R st).apply e.request e.env s).2 k) m
    rw [hsame]
    exact hs

/-- The moves of the register are the turns of the key. -/
theorem kvTurns_moved (hk : ¬Own k) {order : List (Turn Nat Job)} (hexplained : t.Explained R st (started acts) order)
    (htimes : ∀ e ∈ order, .resume e.program e.env ∈ acts)
    {turns : List (Nat × Register.Turn String)}
    (hturns : (registerAt st ns key k).Moved (gatewaySpec R st) none Store.empty order turns) : KvTurns st ns key k acts t turns where
  once := hexplained.once.sublist hturns.sublist
  own x hx := by
    obtain ⟨e, he, hprogram, m, o, a, ha, hop, -⟩ := hturns.own x hx
    have hmine := hexplained.own e he
    rw [hop, ← hprogram]
    exact ⟨⟨_, a, hmine, ha, rfl⟩, htimes e he⟩
  data := by
    rw [hexplained.data k hk]
    exact hturns.holds
  answers i j a p hj ha hp hend := by
    obtain ⟨x, y, now, rfl, hx, hmoved⟩ := hexplained.moved hturns hj (access_oneStep ha) hp hend
    refine ⟨x, rfl, ?_⟩
    rcases hmoved with ⟨before, τ, after, hsplit, a', ha', rfl, htold⟩ | ⟨hout, hidle⟩
    · rw [ha] at ha'
      cases ha'
      exact Or.inl ⟨before, _, after, hsplit, rfl, hx.trans htold⟩
    · obtain ⟨error, rfl, hrefusal⟩ := hidle a ha
      rw [sameButTtl_error hx]
      exact Or.inr ⟨hout, hrefusal⟩

theorem registerAt_turns (hR : R.Lawful) (hL : R.Lifetimes) (hW : R.Writes) (hS : R.Strings)
    (hk : buildKey st.engine ns kvPrefix key = .ok k) {e : Turn Nat Job} (he : e.request.Beside st ns key) :
    (registerAt st ns key k).Turns (gatewaySpec R st) e := by
  cases ha : e.request.access st ns key with
  | some a => exact registerAt_access hR hL hW hS hk ha
  | none =>
    refine registerAt_idle ha fun s => ?_
    rcases he with ⟨a, ha'⟩ | hwatch | ⟨-, helse⟩
    · rw [ha] at ha'
      cases ha'
    · exact (atOnce_watches hR hwatch e.env s k (KeyOf.not_own ⟨kvPrefix, by decide, key, hk⟩)).symm
    · exact atOnce_elsewhere hR hk helse e.env s

theorem Job.Beside.oneStep {j : Job} (h : j.Beside st ns key) : j.oneStep st = true ∨ j.watches = true := by
  rcases h with ⟨a, ha⟩ | hwatch | ⟨hone, -⟩
  · exact Or.inl (access_oneStep ha)
  · exact Or.inr hwatch
  · exact Or.inl hone

/-- The register moves in the order of the requests. -/
theorem register_moved (hR : R.Lawful) (hL : R.Lifetimes) (hW : R.Writes) (hS : R.Strings)
    (hk : buildKey st.engine ns kvPrefix key = .ok k) {before after : List (Pool.Act Job Nat)}
    (hjobs : ∀ j, .start j ∈ before ++ after → j.Beside st ns key) (h : Gateway.run st R (before ++ after) = some t) :
    ∃ u order later turns more, Gateway.run st R before = some u ∧
      u.Explained R st (started before) order ∧ t.Explained R st (started (before ++ after)) (order ++ later) ∧
      (∀ e ∈ order, .resume e.program e.env ∈ before) ∧ (∀ e ∈ later, .resume e.program e.env ∈ after) ∧
      (registerAt st ns key k).Moved (gatewaySpec R st) none Store.empty order turns ∧
      (registerAt st ns key k).Moved (gatewaySpec R st) none Store.empty (order ++ later) (turns ++ more) := by
  obtain ⟨u, order, later, hu, hbefore, hafter, hfirst, htimes⟩ := ordered hR hL (fun j hj => (hjobs j hj).oneStep) h
  have hstarted : started before ++ started after = started (before ++ after) := List.filterMap_append.symm
  rw [hstarted] at hafter
  have hturn : ∀ e ∈ order ++ later, (registerAt st ns key k).Turns (gatewaySpec R st) e := fun e he =>
    registerAt_turns hR hL hW hS hk (hjobs _ (turns_started hafter he))
  have hstart : (registerAt st ns key k).Moved (gatewaySpec R st) none Store.empty [] [] := Object.moved_nil rfl
  obtain ⟨turns, hturns⟩ := hstart.more (by simpa using hbefore.once) fun e he => hturn e (List.mem_append_left _ he)
  rw [List.nil_append, List.nil_append] at hturns
  obtain ⟨more, hmore⟩ := hturns.more hafter.once fun e he => hturn e (List.mem_append_right _ he)
  exact ⟨u, order, later, turns, more, hu, hbefore, hafter, hfirst, htimes, hturns, hmore⟩

/-- However requests that get, set, delete or look for one key are served side by side, among others: the key is a register
    that they access in turn, each is told what it finds in its turn, but for the TTL, and the rest are refused. Requests
    that come later have later turns. -/
theorem kv_register (hR : R.Lawful) (hL : R.Lifetimes) (hW : R.Writes) (hS : R.Strings)
    (hk : buildKey st.engine ns kvPrefix key = .ok k) {before after : List (Pool.Act Job Nat)}
    (hjobs : ∀ j, .start j ∈ before ++ after → j.Beside st ns key) (h : Gateway.run st R (before ++ after) = some t) :
    ∃ u turns more, Gateway.run st R before = some u ∧ KvTurns st ns key k before u turns ∧
      KvTurns st ns key k (before ++ after) t (turns ++ more) := by
  have hown : ¬Own k := KeyOf.not_own ⟨kvPrefix, by decide, key, hk⟩
  obtain ⟨u, order, later, turns, more, hu, hbefore, hafter, hfirst, htimes, hturns, hmore⟩ := register_moved hR hL hW hS hk hjobs h
  refine ⟨u, turns, more, hu, kvTurns_moved hown hbefore hfirst hturns, kvTurns_moved hown hafter (fun e he => ?_) hmore⟩
  rcases List.mem_append.mp he with he | he
  · exact List.mem_append_left _ (hfirst e he)
  · exact List.mem_append_right _ (htimes e he)

end Run

def kvJob (op : KvOp) : Job := .data (plainRequest appClient "app" (.kv op))

/-- The key is locked for a second, and read while another counts. -/
theorem kv_register_lock : ∃ t u turns more,
    Gateway.run {} reference ([.start (kvJob (.setKvNx "lock" ⟨"a", some 1⟩)), .resume 0 5] ++
      [.start (kvJob (.getKv "lock")), .start (countJob 3), .resume 1 7, .resume 2 7]) = some t ∧
    t.state "app:kv:lock" = some ⟨.str "a", some 1005⟩ ∧
    KvTurns {} "app" "lock" "app:kv:lock" [.start (kvJob (.setKvNx "lock" ⟨"a", some 1⟩)), .resume 0 5] u turns ∧
    KvTurns {} "app" "lock" "app:kv:lock" ([.start (kvJob (.setKvNx "lock" ⟨"a", some 1⟩)), .resume 0 5] ++
      [.start (kvJob (.getKv "lock")), .start (countJob 3), .resume 1 7, .resume 2 7]) t (turns ++ more) := by
  obtain ⟨t, ht, hstate⟩ : ∃ t, Gateway.run {} reference ([.start (kvJob (.setKvNx "lock" ⟨"a", some 1⟩)), .resume 0 5] ++
      [.start (kvJob (.getKv "lock")), .start (countJob 3), .resume 1 7, .resume 2 7]) = some t ∧
      t.state "app:kv:lock" = some ⟨.str "a", some 1005⟩ := ⟨_, rfl, by decide +kernel⟩
  have hjobs : ∀ j, Pool.Act.start j ∈ ([.start (kvJob (.setKvNx "lock" ⟨"a", some 1⟩)), .resume 0 5] ++
      [.start (kvJob (.getKv "lock")), .start (countJob 3), .resume 1 7, .resume 2 7] : List (Pool.Act Job Nat)) →
      j.Beside {} "app" "lock" := by
    intro j hj
    simp only [List.cons_append, List.nil_append, List.mem_cons, Pool.Act.start.injEq, reduceCtorEq, List.not_mem_nil, or_false,
      false_or] at hj
    rcases hj with rfl | rfl | rfl
    · exact Or.inl ⟨_, rfl⟩
    · exact Or.inl ⟨_, rfl⟩
    · exact Or.inr (Or.inr ⟨rfl, rfl⟩)
  have hk : buildKey ({} : Settings).engine "app" kvPrefix "lock" = .ok "app:kv:lock" := rfl
  obtain ⟨u, turns, more, -, hbefore, hafter⟩ := kv_register reference_lawful reference_lifetimes reference_writes reference_strings hk hjobs ht
  exact ⟨t, u, turns, more, ht, hstate, hbefore, hafter⟩

section Locks
variable {R : Server} {st : Settings} {ns key k : String} {acts : List (Pool.Act Job Nat)} {t : Gateway}

/-! ### Locks -/

/-- The job has set the key, which it does only if it finds no value. -/
def Acquired (st : Settings) (ns key : String) (acts : List (Pool.Act Job Nat)) (t : Gateway) (i : Nat) : Prop :=
  ∃ j a v life r, (started acts)[i]? = some j ∧ j.access st ns key = some a ∧ a.op = .putNew v life ∧
    t.programs[i]? = some (.pure (some r)) ∧ r.status = 200

theorem told_putNew {j : Job} {a : KvAccess} {v w : String} {life : Option Nat} (ha : j.access st ns key = some a)
    (hop : a.op = .putNew v life) : a.told (some w) = .error (error "KEY_EXISTS" s!"Key '{key}' already exists in namespace '{ns}'" 409) := by
  obtain ⟨q, o, -, -, -, ha, rfl⟩ := access_eq_some ha
  cases o with
  | setKvNx key body =>
    cases ha
    rfl
  | getKv key | existsKv key | setKv key body | deleteKv key =>
    cases ha
    cases hop
  | _ => cases ha

/-- It has set the key in its turn. -/
theorem KvTurns.acquired {turns : List (Nat × Register.Turn String)} (h : KvTurns st ns key k acts t turns) {i : Nat}
    (hi : Acquired st ns key acts t i) : ∃ before e after v life, turns = before ++ (i, e) :: after ∧
      e.Puts (before.map (·.2)) v life ∧ Register.found e.time (Register.after (before.map (·.2))) = none := by
  obtain ⟨j, a, v, life, r, hj, ha, hop, hp, hstatus⟩ := hi
  obtain ⟨x, hx, hturn | ⟨-, hrefusal⟩⟩ := h.answers i j a _ hj ha hp trivial
  · obtain ⟨before, e, after, hsplit, he, htold⟩ := hturn
    have hnone : Register.found e.time (Register.after (before.map (·.2))) = none := by
      cases hfound : Register.found e.time (Register.after (before.map (·.2))) with
      | none => rfl
      | some w =>
        rw [hfound, told_putNew ha hop] at htold
        cases hx
        rw [sameButTtl_error htold] at hstatus
        cases hstatus
    exact ⟨before, e, after, v, life, hsplit, Or.inr ⟨he.trans hop, hnone⟩, hnone⟩
  · cases hx
    exact absurd (List.mem_cons.mpr (Or.inl hstatus)) hrefusal

/-- Of two elements of a list, one is before the other. -/
theorem two_places {α : Type} {pre post pre' post' : List α} {x y : α} (h : pre ++ x :: post = pre' ++ y :: post') (hne : x ≠ y) :
    (∃ mid, pre' = pre ++ x :: mid) ∨ ∃ mid, pre = pre' ++ y :: mid := by
  rcases List.append_eq_append_iff.mp h with ⟨as, hpre, hrest⟩ | ⟨bs, hpre, hrest⟩
  · cases as with
    | nil => exact absurd (List.cons.inj hrest).1 hne
    | cons z as =>
      obtain ⟨rfl, -⟩ := List.cons.inj hrest
      exact Or.inl ⟨as, hpre⟩
  · cases bs with
    | nil => exact absurd (List.cons.inj hrest).1.symm hne
    | cons z bs =>
      obtain ⟨rfl, -⟩ := List.cons.inj hrest
      exact Or.inr ⟨bs, hpre⟩

theorem passed_on {pre mid : List (Nat × Register.Turn String)} {x : Nat × Register.Turn String} {now : Nat} {v : String} {life : Option Nat}
    (hputs : x.2.Puts (pre.map (·.2)) v life)
    (hnone : Register.found now (Register.after ((pre ++ x :: mid).map (·.2))) = none) :
    Register.Released (pre.map (·.2)) ((x :: mid).map (·.2)) now := by
  rw [List.map_append] at hnone
  exact Register.released hputs hnone

/-- `PUT .../nx` is a lock: if two requests have both set the key, one of them came first, and between its turn and that of
    the other the key was deleted, or what was put last had run out. -/
theorem locks_exclusive (hR : R.Lawful) (hL : R.Lifetimes) (hW : R.Writes) (hS : R.Strings)
    (hk : buildKey st.engine ns kvPrefix key = .ok k) (hjobs : ∀ j, .start j ∈ acts → j.Beside st ns key)
    (h : Gateway.run st R acts = some t) {i i' : Nat} (hne : i ≠ i') (hi : Acquired st ns key acts t i)
    (hi' : Acquired st ns key acts t i') : ∃ turns, KvTurns st ns key k acts t turns ∧
      ∃ pre x mid y post, turns = pre ++ x :: mid ++ y :: post ∧ (x.1 = i ∧ y.1 = i' ∨ x.1 = i' ∧ y.1 = i) ∧
        Register.Released (pre.map (·.2)) ((x :: mid).map (·.2)) y.2.time := by
  have hrun : Gateway.run st R (acts ++ []) = some t := by rwa [List.append_nil]
  obtain ⟨u, order, -, turns, -, hu, hexplained, -, htimes, -, hmoved, -⟩ := register_moved hR hL hW hS hk (by simpa using hjobs) hrun
  obtain rfl : u = t := Option.some.inj (hu.symm.trans h)
  have hturns := kvTurns_moved (KeyOf.not_own ⟨kvPrefix, by decide, key, hk⟩) hexplained htimes hmoved
  refine ⟨turns, hturns, ?_⟩
  obtain ⟨pre, e, post, v, life, hsplit, hputs, hnone⟩ := hturns.acquired hi
  obtain ⟨pre', e', post', v', life', hsplit', hputs', hnone'⟩ := hturns.acquired hi'
  have hdiff : (i, e) ≠ (i', e') := fun heq => hne (congrArg Prod.fst heq)
  rcases two_places (hsplit.symm.trans hsplit') hdiff with ⟨mid, rfl⟩ | ⟨mid, rfl⟩
  · exact ⟨pre, (i, e), mid, (i', e'), post', hsplit', Or.inl ⟨rfl, rfl⟩, passed_on hputs hnone'⟩
  · exact ⟨pre', (i', e'), mid, (i, e), post, hsplit, Or.inr ⟨rfl, rfl⟩, passed_on hputs' hnone⟩

end Locks

/-- The lock is free after a second, and gets another holder. -/
def lockActs : List (Pool.Act Job Nat) :=
  .start (kvJob (.setKvNx "lock" ⟨"a", some 1⟩)) :: .start (kvJob (.setKvNx "lock" ⟨"b", some 60⟩)) ::
    (List.replicate 17 (.resume 0 5) ++ List.replicate 17 (.resume 1 2000))

theorem locks_exclusive_expired : ∃ t, Gateway.run {} reference lockActs = some t ∧ t.state "app:kv:lock" = some ⟨.str "b", some 62000⟩ ∧
    ∃ turns, KvTurns {} "app" "lock" "app:kv:lock" lockActs t turns ∧
      ∃ pre x mid y post, turns = pre ++ x :: mid ++ y :: post ∧ (x.1 = 0 ∧ y.1 = 1 ∨ x.1 = 1 ∧ y.1 = 0) ∧
        Register.Released (pre.map (·.2)) ((x :: mid).map (·.2)) y.2.time := by
  obtain ⟨t, ht, hstate, ⟨r, hr, hstatus⟩, r', hr', hstatus'⟩ : ∃ t, Gateway.run {} reference lockActs = some t ∧
      t.state "app:kv:lock" = some ⟨.str "b", some 62000⟩ ∧ (∃ r, t.programs[0]? = some (.pure (some r)) ∧ r.status = 200) ∧
        ∃ r, t.programs[1]? = some (.pure (some r)) ∧ r.status = 200 := by
    refine ⟨_, rfl, by decide +kernel, ?_, ?_⟩
    · exact ⟨_, rfl, rfl⟩
    · exact ⟨_, rfl, rfl⟩
  have hjobs : ∀ j, Pool.Act.start j ∈ lockActs → j.Beside {} "app" "lock" := by
    intro j hj
    simp only [lockActs, List.mem_cons, List.mem_append, List.mem_replicate, Pool.Act.start.injEq, reduceCtorEq, and_false,
      or_false] at hj
    rcases hj with rfl | rfl
    · exact Or.inl ⟨_, rfl⟩
    · exact Or.inl ⟨_, rfl⟩
  have hk : buildKey ({} : Settings).engine "app" kvPrefix "lock" = .ok "app:kv:lock" := rfl
  have hfirst : Acquired {} "app" "lock" lockActs t 0 := ⟨_, _, _, _, r, rfl, rfl, rfl, hr, hstatus⟩
  have hsecond : Acquired {} "app" "lock" lockActs t 1 := ⟨_, _, _, _, r', rfl, rfl, rfl, hr', hstatus'⟩
  exact ⟨t, ht, hstate, locks_exclusive reference_lawful reference_lifetimes reference_writes reference_strings hk hjobs ht (by decide)
    hfirst hsecond⟩

end Redgw
