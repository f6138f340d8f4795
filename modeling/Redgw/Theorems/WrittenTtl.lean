import Redgw.Theorems.Acknowledged
import Redgw.Theorems.MetaTtl

/-! # Lifetimes that requests set and keep

Requests that write give their keys one TTL. Requests that add to a number, publish, or take something away
leave the TTL of their key as it is. -/

namespace Redgw
open Redis Prog Fallible

/-- The keys that a request writes with a lifetime, and the TTL of its body. -/
def Op.ttlWrite : Op → Option (List String × Option Int)
  | kv (.setKv key body) => some ([key], body.ttl)
  | kv (.batchSetKv body) => some (body.items.items.map (·.1), body.ttl)
  | kv (.setKvNx key body) => some ([key], body.ttl)
  | map (.setMap key body) => some ([key], body.ttl)
  | map (.setMapField key _ body) => some ([key], body.ttl)
  | map (.batchSetMap body) => some (body.items.items.map (·.1), body.ttl)
  | queue (.pushQueue key body) => some ([key], body.ttl)
  | queue (.batchPushQueue key body) => some ([key], body.ttl)
  | group (.addGroup key body) => some ([key], body.ttl)
  | group (.batchAddGroup body) => some (body.items.items.map (·.1), body.ttl)
  | rank (.addRank key body) => some ([key], body.ttl)
  | rank (.batchAddRank key body) => some ([key], body.ttl)
  | _ => none

/-- The requests that change a value and not its lifetime. -/
def Op.keepsTtl : Op → Bool
  | kv (.incrKv ..) => true
  | map (.deleteMapField ..) => true
  | queue (.popQueue ..) | queue (.trimQueue ..) => true
  | group (.removeGroup ..) => true
  | rank (.incrRank ..) | rank (.removeRank ..) | rank (.popRank ..) => true
  | event (.publishEvent ..) | event (.batchPublishEvent ..) => true
  | _ => false

/-! ### Writes with a lifetime -/

section Gives
variable {R : Server} {k : String} {ttl : Int} {now : Nat}

/-- The commands are on one key, and leave it with the lifetime if none of them is refused. -/
structure Gives (R : Server) (now : Nat) (k : String) (ttl : Int) (cs : List (String × KeyCmd)) : Prop where
  own : ∀ x ∈ cs, x.1 = k
  given : ∀ s vs, replies (R.transact now cs s).1 = .ok vs → ∃ v, (R.transact now cs s).2 k = some ⟨v, deadlineFor now ttl⟩

theorem gives_storing (hW : R.Writes) (value : String) : Gives R now k ttl [(k, storing ttl value)] where
  own x hx := by rw [List.mem_singleton.mp hx]
  given s vs hvs := by
    obtain ⟨v, ws, hv, -, -⟩ := replies_cons hvs
    refine ⟨.str value, ?_⟩
    show (R.atKey k (storing ttl value) now s).2 k = _
    rw [Server.atKey_self]
    exact storing_stores hW hv

theorem gives_adds (hT : R.Lifetimes) (hW : R.Writes) {c : KeyCmd} (hc : c.Adds) :
    Gives R now k ttl [(k, c), lifetime k ttl] where
  own x hx := by
    rcases List.mem_pair.mp hx with rfl | rfl <;> rfl
  given s vs hvs := by
    obtain ⟨v, ws, hv, hws, -⟩ := replies_cons hvs
    obtain ⟨w, us, hw, -, -⟩ := replies_cons hws
    obtain ⟨x, hx, -⟩ := hW.adds c now (s k) v hc hv
    have hstored : (R.atKey k c now s).2 k = (R.onKey c now (s k)).2 := Server.atKey_self ..
    rw [← hstored] at hx
    refine ⟨x.value, ?_⟩
    show (R.atKey k (lifetime k ttl).2 now (R.atKey k c now s).2).2 k = _
    rw [Server.atKey_self]
    exact lifetime_gives hT hx hw

theorem Gives.reported (hR : R.Lawful) {cs : List (String × KeyCmd)} (h : Gives R now k ttl cs) : Gives R now k ttl (cs ++ [(k, .ttl)]) where
  own x hx := by
    rcases List.mem_append.mp hx with hx | hx
    · exact h.own x hx
    · rw [List.mem_singleton.mp hx]
  given s vs hvs := by
    obtain ⟨us, -, hus, -⟩ := replies_append hvs
    obtain ⟨v, hv⟩ := h.given s us hus
    refine ⟨v, ?_⟩
    rw [Server.transact_append]
    show (R.atKey k .ttl now _).2 k = _
    rw [Server.atKey_self, hR.reads .ttl rfl, hv]

theorem queueItems_cons {β : Type} {st : Settings} {ns p : String} {x : String × β} {items : List (String × β)}
    {queue : String → β → List (String × KeyCmd)} {cs : List (String × KeyCmd)}
    (h : queueItems st ns p (x :: items) queue = .ok cs) : ∃ k rest, buildKey st.engine ns p x.1 = .ok k ∧
      queueItems st ns p items queue = .ok rest ∧ cs = queue k x.2 ++ rest := by
  unfold queueItems at h ⊢
  obtain ⟨queued, hqueued, hcs⟩ := bind_ok.mp h
  rw [List.mapM_cons] at hqueued
  obtain ⟨y, hy, hqueued⟩ := bind_ok.mp hqueued
  obtain ⟨ys, hys, hqueued⟩ := bind_ok.mp hqueued
  obtain ⟨k, hk, hy⟩ := bind_ok.mp hy
  cases hy
  cases hqueued
  cases hcs
  exact ⟨k, ys.flatten, hk, by rw [hys]; rfl, rfl⟩

/-- A batch leaves every key of its items with the lifetime, and every other key that had it. -/
theorem given_items {β : Type} {st : Settings} {ns p : String} {items : List (String × β)}
    {queue : String → β → List (String × KeyCmd)} (hq : ∀ x ∈ items, ∀ k, Gives R now k ttl (queue k x.2))
    {cs : List (String × KeyCmd)} (hcs : queueItems st ns p items queue = .ok cs) {s : Store} {vs : List Json}
    (hvs : replies (R.transact now cs s).1 = .ok vs)
    (h : (∃ v, s k = some ⟨v, deadlineFor now ttl⟩) ∨ ∃ key ∈ items.map (·.1), buildKey st.engine ns p key = .ok k) :
    ∃ v, (R.transact now cs s).2 k = some ⟨v, deadlineFor now ttl⟩ := by
  induction items generalizing cs s vs with
  | nil =>
    cases hcs
    rcases h with h | ⟨key, hkey, -⟩
    · exact h
    · cases hkey
  | cons x items ih =>
    obtain ⟨k', rest, hk', hrest, rfl⟩ := queueItems_cons hcs
    obtain ⟨us, ws, hus, hws⟩ := replies_append hvs
    have hblock := hq x List.mem_cons_self k'
    rw [Server.transact_append]
    refine ih (fun y hy => hq y (List.mem_cons_of_mem _ hy)) hrest hws ?_
    by_cases hkk : k = k'
    · subst hkk
      exact Or.inl (hblock.given s us hus)
    · have hsame : (R.transact now (queue k' x.2) s).2 k = s k := Server.transact_ne fun y hy => by rw [hblock.own y hy]; exact hkk
      rcases h with ⟨v, hv⟩ | ⟨key, hkey, hk⟩
      · exact Or.inl ⟨v, hsame.trans hv⟩
      · rw [List.map_cons, List.mem_cons] at hkey
        rcases hkey with rfl | hkey
        · rw [hk] at hk'
          cases hk'
          exact absurd rfl hkk
        · exact Or.inr ⟨key, hkey, hk⟩

end Gives

/-- If the commands of the plan are answered and the answer is a success, the key has the lifetime. -/
def Plan.Gives (R : Server) (now : Nat) (k : String) (ttl : Int) (p : Plan) : Prop :=
  ∀ s vs d, replies (R.transact now p.commands s).1 = .ok vs → p.data vs = .ok d →
    ∃ v, (R.transact now p.commands s).2 k = some ⟨v, deadlineFor now ttl⟩

section Writes
variable {R : Server} {st : Settings} {ns k : String} {now : Nat}

theorem Gives.plan {p : Plan} {ttl : Int} (h : Redgw.Gives R now k ttl p.commands) : p.Gives R now k ttl :=
  fun s vs _ hvs _ => h.given s vs hvs

theorem gives_batch {ttl : Int} {β : Type} {operation typePrefix : String} {items : List (String × β)}
    {queue : String → β → List (String × KeyCmd)} {x : Except Exn Unit} {q : List (String × KeyCmd) → Plan}
    (hq : ∀ x ∈ items, ∀ k, Redgw.Gives R now k ttl (queue k x.2)) (hcs : ∀ cs, (q cs).commands = cs) {key : String}
    (hkey : key ∈ items.map (·.1)) (hk : buildKey st.engine ns typePrefix key = .ok k) :
    Planned.All (Plan.Gives R now k ttl)
      (some (operation, x >>= fun _ => queueItems st ns typePrefix items queue >>= fun cs => pure (q cs))) := by
  refine Planned.all_some (Yields.bind fun _ _ => Yields.bind fun cs hqueued => yields_pure fun s vs d hvs _ => ?_)
  rw [hcs] at hvs ⊢
  exact given_items hq hqueued hvs (Or.inr ⟨key, hkey, hk⟩)

/-- The plans of the writes. -/
theorem Op.gives (hR : R.Lawful) (hT : R.Lifetimes) (hW : R.Writes) {o : Op} (hvalid : o.valid = true) {keys : List String}
    {ttl : Option Int} (ho : o.ttlWrite = some (keys, ttl)) {typePrefix key : String} (hp : o.typePrefix = some typePrefix)
    (hkey : key ∈ keys) (hk : buildKey st.engine ns typePrefix key = .ok k) :
    (o.plan st ns).All (Plan.Gives R now k (resolveTtl st ttl)) := by
  cases o with
  | kv o =>
    cases hp
    cases o with
    | setKv key' body =>
      cases ho
      rw [List.mem_singleton.mp hkey] at hk
      exact all_checked hk fun _ => Gives.plan (gives_storing hW body.value)
    | batchSetKv body =>
      cases ho
      exact gives_batch (fun x _ k => gives_storing hW x.2) (fun _ => rfl) hkey hk
    | setKvNx key' body =>
      cases ho
      rw [List.mem_singleton.mp hkey] at hk
      refine all_keyed hk fun s vs d hvs hd => ?_
      obtain ⟨v, ws, hv, -, rfl⟩ := replies_cons hvs
      refine ⟨.str body.value, ?_⟩
      show (R.atKey k (storingNx (resolveTtl st body.ttl) body.value) now s).2 k = _
      rw [Server.atKey_self]
      refine storingNx_stores hW hv ?_
      cases hdone : v.truthy with
      | true => rfl
      | false =>
        have hfirst : (first (v :: ws)).truthy = false := hdone
        dsimp only at hd
        rw [hfirst] at hd
        cases hd
    | _ => cases ho
  | map o =>
    cases hp
    cases o with
    | setMap key' body =>
      cases ho
      rw [List.mem_singleton.mp hkey] at hk
      have hvalid' : body.valid = true := hvalid
      simp only [MapSetRequest.valid, Bool.and_eq_true, Dict.length] at hvalid'
      have hadds : (KeyCmd.hset body.fields.items).Adds :=
        ⟨List.ne_nil_of_length_pos (of_decide_eq_true hvalid'.1.1), body.fields.nodup⟩
      exact all_checked hk fun _ => Gives.plan ((gives_adds hT hW hadds).reported hR)
    | setMapField key' field body =>
      cases ho
      rw [List.mem_singleton.mp hkey] at hk
      have hadds : (KeyCmd.hset [(field, body.value)]).Adds := ⟨List.cons_ne_nil _ _, List.nodup_singleton _⟩
      exact all_checked hk fun _ => Gives.plan ((gives_adds hT hW hadds).reported hR)
    | batchSetMap body =>
      cases ho
      have hvalid' : body.valid = true := hvalid
      simp only [MapBatchSetRequest.valid, Bool.and_eq_true, List.all_eq_true, Dict.length] at hvalid'
      refine gives_batch (fun x hx k => ?_) (fun _ => rfl) hkey hk
      exact gives_adds hT hW ⟨List.ne_nil_of_length_pos (of_decide_eq_true (hvalid'.2 x hx).1), x.2.nodup⟩
    | _ => cases ho
  | queue o => cases o with
    | pushQueue key' body => exact Planned.all_none
    | batchPushQueue key' body => exact Planned.all_none
    | _ => cases ho
  | group o =>
    cases hp
    cases o with
    | addGroup key' body =>
      cases ho
      rw [List.mem_singleton.mp hkey] at hk
      have hvalid' : body.valid = true := hvalid
      simp only [GroupAddRequest.valid, Bool.and_eq_true, decide_eq_true_eq] at hvalid'
      have hadds : (KeyCmd.sadd body.members).Adds := List.ne_nil_of_length_pos hvalid'.1
      exact all_checked hk fun _ => Gives.plan ((gives_adds hT hW hadds).reported hR)
    | batchAddGroup body =>
      cases ho
      have hvalid' : body.valid = true := hvalid
      simp only [GroupBatchAddRequest.valid, Bool.and_eq_true, List.all_eq_true] at hvalid'
      refine gives_batch (fun x hx k => ?_) (fun _ => rfl) hkey hk
      have hadds : (KeyCmd.sadd x.2).Adds := List.ne_nil_of_length_pos (of_decide_eq_true (hvalid'.2 x hx).1)
      exact gives_adds hT hW hadds
    | _ => cases ho
  | rank o =>
    cases hp
    cases o with
    | addRank key' body =>
      cases ho
      rw [List.mem_singleton.mp hkey] at hk
      have hadds : (KeyCmd.zadd [(body.member, body.score)]).Adds := ⟨List.cons_ne_nil _ _, List.nodup_singleton _⟩
      refine Planned.all_some (Yields.bind fun _ _ => ?_)
      cases body.score.isfinite
      · exact yields_throw
      · exact yields_keyed hk (Gives.plan ((gives_adds hT hW hadds).reported hR))
    | batchAddRank key' body =>
      cases ho
      rw [List.mem_singleton.mp hkey] at hk
      have hvalid' : body.valid = true := hvalid
      simp only [RankBatchAddRequest.valid, batchSize, Bool.and_eq_true, decide_eq_true_eq] at hvalid'
      have hadds := dict_adds (List.ne_nil_of_length_pos hvalid'.1.1.1)
      exact all_checked hk fun _ => Gives.plan ((gives_adds hT hW hadds).reported hR)
    | _ => cases ho
  | event o => cases ho
  | pubsub o => cases ho

end Writes

section Pushes
variable {R : Server} {st : Settings} {ns k : String} {now : Nat} {s t : Store} {body : Json}

/-- A script that is answered has run on the entry of its key, and on no other. -/
theorem alone_script {α : Script} {v : Json} (h : Alone R now (script k α) s = (.ok v, t)) :
    OnEntry R now α (s k) = (.ok v, t k) ∧ ∀ k', k' ≠ k → t k' = s k' := by
  obtain ⟨r, u, hask, hreply⟩ := alone_bind_ok h
  have hrun : r = (OnEntry R now α (s k)).1 ∧ u = s.set k (OnEntry R now α (s k)).2 := by
    cases hask
    exact ⟨rfl, rfl⟩
  obtain ⟨hr, rfl⟩ := hrun
  cases r with
  | error msg => cases hreply
  | ok w =>
    cases hreply
    rw [Store.set_self, hr]
    exact ⟨rfl, fun k' hk => Store.set_ne _ _ hk⟩

/-- A push that succeeds leaves its list with the lifetime. -/
theorem push_gives (hR : R.Lawful) (hT : R.Lifetimes) (hW : R.Writes) {q : QueueOp} {p : Push} (hq : q.push st = some p)
    (hvalid : q.valid = true) (hk : buildKey st.engine ns queuePrefix p.key = .ok k)
    (h : Alone R now (p.program st ns) s = (.ok body, t)) : ∃ v, t k = some ⟨v, deadlineFor now p.ttl⟩ := by
  obtain ⟨k', result, u, vs, -, hk', hscript, hfull, hreplies, rfl, -⟩ := alone_push h
  rw [hk] at hk'
  cases hk'
  have hlist : ∃ xs d, live now (u k) = some ⟨.list xs, d⟩ := by
    cases q with
    | pushQueue key b =>
      cases hq
      exact (singlePush_pushed hR hW (alone_script hscript).1 hfull).1
    | batchPushQueue key b =>
      cases hq
      have hvalid' : b.valid = true := hvalid
      simp only [QueueBatchPushRequest.valid, batchSize, Bool.and_eq_true, decide_eq_true_eq] at hvalid'
      exact (batchPush_pushed hR hW (List.ne_nil_of_length_pos hvalid'.1.1.1) (alone_script hscript).1 hfull).1
    | _ => cases hq
  obtain ⟨xs, d, hlive⟩ := hlist
  obtain ⟨w, ws, hw, -, -⟩ := replies_cons hreplies
  refine ⟨.list xs, ?_⟩
  show (R.atKey k .ttl now (R.atKey k (lifetime k p.ttl).2 now u).2).2 k = _
  rw [Server.atKey_self, hR.reads .ttl rfl, Server.atKey_self]
  exact lifetime_gives hT hlive hw

end Pushes

/-! ### Accepted requests -/

section Accepted
variable {R : Server} {st : Settings} {ns k : String} {now : Nat} {s t : Store} {body : Json}

/-- The commands are on one key, and at most the first of them may take it away; none changes its lifetime. -/
def Plan.Keeps (p : Plan) : Prop := ∃ k, Lasting k p.commands ∨ Changing k p.commands

theorem keeps_one {p : Plan} {c : KeyCmd} (hcs : p.commands = [(k, c)]) (hc : c.keepsTtl = true) : p.Keeps :=
  ⟨k, Or.inr ⟨c, [], hcs, Or.inl hc, fun x hx => by cases hx⟩⟩

theorem keeps_two {p : Plan} {c d : KeyCmd} (hcs : p.commands = [(k, c), (k, d)]) (hc : c.keepsTtl = true) (hd : d.reads = true) :
    p.Keeps := by
  refine ⟨k, Or.inr ⟨c, [(k, d)], hcs, Or.inl hc, fun x hx => ?_⟩⟩
  rw [List.mem_singleton.mp hx]
  exact ⟨rfl, hd⟩

theorem Op.keeps {o : Op} (ho : o.keepsTtl = true) : (o.plan st ns).All Plan.Keeps := by
  have hone : ∀ {β : Type} {operation : String} {x : Except Exn β} {q : β → Plan}, (∀ b, (q b).Keeps) →
      Planned.All Plan.Keeps (some (operation, x >>= fun b => pure (q b))) :=
    fun h => Planned.all_some (Yields.bind fun b _ => yields_pure (h b))
  have hchecked : ∀ {β γ : Type} {operation : String} {y : Except Exn γ} {x : Except Exn β} {q : β → Plan}, (∀ b, (q b).Keeps) →
      Planned.All Plan.Keeps (some (operation, y >>= fun _ => x >>= fun b => pure (q b))) :=
    fun h => Planned.all_some (Yields.bind fun _ _ => Yields.bind fun b _ => yields_pure (h b))
  cases o with
  | kv o => cases o with
    | incrKv key body => exact hone fun k => keeps_two rfl rfl rfl
    | _ => cases ho
  | map o => cases o with
    | deleteMapField key field => exact hone fun k => keeps_one rfl rfl
    | _ => cases ho
  | queue o => cases o with
    | popQueue key direction => exact hone fun k => keeps_one rfl (by cases direction <;> rfl)
    | trimQueue key body => exact hone fun k => keeps_two rfl rfl rfl
    | _ => cases ho
  | group o => cases o with
    | removeGroup key member => exact hone fun k => keeps_one rfl rfl
    | _ => cases ho
  | rank o => cases o with
    | removeRank key member => exact hone fun k => keeps_one rfl rfl
    | incrRank key body =>
      refine Planned.all_some (Yields.bind fun _ _ => ?_)
      cases body.delta.isfinite
      · exact yields_throw
      · exact Yields.bind fun k _ => yields_pure (keeps_two rfl rfl rfl)
    | popRank key max => exact hone fun k => keeps_one rfl rfl
    | _ => cases ho
  | event o => cases o with
    | batchPublishEvent key body =>
      refine hchecked fun k => ⟨k, Or.inl fun x hx => ?_⟩
      obtain ⟨evt, -, rfl⟩ := List.mem_map.mp hx
      exact ⟨rfl, Or.inr rfl⟩
    | publishEvent key body => exact hchecked fun k => keeps_one rfl rfl
    | _ => cases ho
  | pubsub o => cases ho

/-- The commands keep the lifetimes of the keys that are still there. -/
theorem Plan.Keeps.deadline (hR : R.Lawful) (hT : R.Lifetimes) (hW : R.Writes) {p : Plan} (hp : p.Keeps) (k : String)
    (hlive : (live now ((R.transact now p.commands s).2 k)).isSome) :
    deadlineOf now ((R.transact now p.commands s).2 k) = deadlineOf now (s k) := by
  obtain ⟨k', hp⟩ := hp
  have hown : ∀ x ∈ p.commands, x.1 = k' := by
    intro x hx
    rcases hp with hlasting | ⟨c, rest, hcs, -, hrest⟩
    · exact (hlasting x hx).1
    · rw [hcs] at hx
      rcases List.mem_cons.mp hx with rfl | hx
      · rfl
      · exact (hrest x hx).1
  by_cases hk : k = k'
  · subst hk
    rcases hp with hlasting | hchanging
    · exact lasting_deadline hR hW hlasting
    · exact changing_deadline hR hT hW hchanging hlive
  · rw [Server.transact_ne fun x hx => by rw [hown x hx]; exact hk]

/-- The writes without a plan are pushes. -/
theorem unplanned_write {o : Op} {keys : List String} {ttl : Option Int} (ho : o.ttlWrite = some (keys, ttl))
    (hnone : o.plan st ns = none) : ∃ q p, o = .queue q ∧ q.push st = some p ∧ keys = [p.key] ∧ p.ttl = resolveTtl st ttl := by
  cases o with
  | kv q => cases q <;> first | exact absurd hnone (Option.some_ne_none _) | cases ho
  | map q => cases q <;> exact absurd hnone (Option.some_ne_none _)
  | queue q => cases q with
    | pushQueue key body =>
      cases ho
      exact ⟨.pushQueue key body, _, rfl, rfl, rfl, rfl⟩
    | batchPushQueue key body =>
      cases ho
      exact ⟨.batchPushQueue key body, _, rfl, rfl, rfl, rfl⟩
    | _ => cases ho
  | group q => cases q <;> first | exact absurd hnone (Option.some_ne_none _) | cases ho
  | rank q => cases q <;> exact absurd hnone (Option.some_ne_none _)
  | _ => cases ho

/-- A write that succeeds leaves its keys with the TTL. -/
theorem accepted_gives (hR : R.Lawful) (hT : R.Lifetimes) (hW : R.Writes) {client : Option ClientInfo} {o : Op}
    (h : Alone R now (endpoint st client ns o) s = (.ok body, t)) {keys : List String} {ttl : Option Int}
    (ho : o.ttlWrite = some (keys, ttl)) {typePrefix key : String} (hp : o.typePrefix = some typePrefix) (hkey : key ∈ keys)
    (hk : buildKey st.engine ns typePrefix key = .ok k) : ∃ v, t k = some ⟨v, deadlineFor now (resolveTtl st ttl)⟩ := by
  obtain ⟨c, rfl, hvalid, hrun⟩ := alone_endpoint h
  by_cases hnone : o.plan st ns = none
  · obtain ⟨q, p, rfl, hq, rfl, httl⟩ := unplanned_write ho hnone
    have hpush : (Op.queue q).handle st c ns = (requireWrite c ns).bind fun _ => p.program st ns := QueueOp.pushes hq
    rw [hpush] at hrun
    obtain ⟨_, u, hguard, hprogram⟩ := alone_bind_ok hrun
    obtain ⟨-, rfl⟩ := alone_guard_ok hguard
    cases hp
    rw [List.mem_singleton.mp hkey] at hk
    rw [← httl]
    exact push_gives hR hT hW hq hvalid hk hprogram
  · obtain ⟨operation, p, hplan, -, hprogram⟩ := alone_planned o.follows hnone hrun
    obtain ⟨vs, d, hvs, rfl, hd, -⟩ := alone_program hprogram
    exact Op.gives hR hT hW hvalid ho hp hkey hk operation (.ok p) hplan p rfl s vs d hvs hd

theorem accepted_keeps (hR : R.Lawful) (hT : R.Lifetimes) (hW : R.Writes) {client : Option ClientInfo} {o : Op}
    (h : Alone R now (endpoint st client ns o) s = (.ok body, t)) (ho : o.keepsTtl = true) (hlive : (live now (t k)).isSome) :
    deadlineOf now (t k) = deadlineOf now (s k) := by
  obtain ⟨c, rfl, -, hrun⟩ := alone_endpoint h
  have hplanned : o.plan st ns ≠ none := by
    cases o with
    | pubsub q => cases ho
    | _ q => cases q <;> first | exact Option.some_ne_none _ | cases ho
  obtain ⟨operation, p, hplan, -, hprogram⟩ := alone_planned o.follows hplanned hrun
  obtain ⟨vs, d, -, rfl, -, -⟩ := alone_program hprogram
  exact (Op.keeps ho operation (.ok p) hplan p rfl).deadline hR hT hW k hlive

end Accepted

end Redgw
