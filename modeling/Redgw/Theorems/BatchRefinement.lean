import Redgw.Redis.SortedSets
import Redgw.Theorems.BatchAcceptance
import Redgw.Theorems.Linearizable
import Redgw.Theorems.RefusedTtl

/-! # Batch writes and the single writes of their items

A batch write that succeeds leaves the store that the single writes of its items leave one after another. One that is
refused leaves the store as it was; one that may not write is counted, and leaves all data alone. -/

namespace Redgw
open Redis Prog Fallible

/-- The single writes of the items of a batch write. -/
def Op.singles : Op → Option (List Op)
  | kv (.batchSetKv body) => some (body.items.items.map fun x => .kv (.setKv x.1 ⟨x.2, body.ttl⟩))
  | map (.batchSetMap body) => some (body.items.items.map fun x => .map (.setMap x.1 ⟨x.2, body.ttl⟩))
  | group (.batchAddGroup body) => some (body.items.items.map fun x => .group (.addGroup x.1 ⟨x.2, body.ttl⟩))
  | queue (.batchPushQueue key body) => some (body.values.map fun v => .queue (.pushQueue key ⟨v, body.direction, body.ttl⟩))
  | rank (.batchAddRank key body) => some (body.members.map fun x => .rank (.addRank key ⟨x.1, x.2, body.ttl⟩))
  | event (.batchPublishEvent key body) => some (body.events.map fun evt => .event (.publishEvent key ⟨evt⟩))
  | _ => none

/-- The requests succeed one after another. -/
inductive InTurn (R : Server) (st : Settings) (client : ClientInfo) (ns : String) (now : Nat) : Store → List Op → Store → Prop
  | nil (s : Store) : InTurn R st client ns now s [] s
  | cons {s t u : Store} {o : Op} {os : List Op} {body : Json} (first : Alone R now (endpoint st (some client) ns o) s = (.ok body, t))
      (rest : InTurn R st client ns now t os u) : InTurn R st client ns now s (o :: os) u

/-! ### Plans whose commands are answered -/

section Answered
variable {R : Server} {st : Settings} {client : ClientInfo} {ns k : String} {ttl : Int} {now : Nat} {s : Store} {vs : List Json}

theorem oneByOne_answered (cs : List (String × KeyCmd)) (h : replies (R.transact now cs s).1 = .ok vs) :
    Alone R now (sendOneByOne cs) s = (.ok (.ok vs), (R.transact now cs s).2) := by
  induction cs generalizing s vs with
  | nil =>
    cases h
    rfl
  | cons x cs ih =>
    obtain ⟨v, ws, hv, hws, rfl⟩ := replies_cons h
    have hask : Alone R now (Prog.ask (Call.redis (.at x.1 x.2))) s = (.ok (.ok v), (R.atKey x.1 x.2 now s).2) :=
      Prod.ext (congrArg Except.ok hv) rfl
    have hfirst : Alone R now (sendOneByOne (x :: cs)) s = _ := run_bind_ok hask _
    rw [hfirst]
    exact run_bind_ok (ih hws) _

theorem plan_sent {p : Plan} (h : replies (R.transact now p.commands s).1 = .ok vs) :
    Alone R now p.send s = (.ok (.ok vs), (R.transact now p.commands s).2) := by
  unfold Plan.send
  cases p.sending with
  | oneByOne => exact oneByOne_answered p.commands h
  | pipeline =>
    have hall : Alone R now ((sendAll p.commands).bind fun rs => .pure (replies rs)) s = _ :=
      run_bind_ok (run_sendAll p.commands now s) _
    rw [← h]
    exact hall
  | transaction =>
    rw [← h]
    rfl

theorem plan_answered {p : Plan} {d : Json} (h : replies (R.transact now p.commands s).1 = .ok vs) (hd : p.data vs = .ok d) :
    Alone R now (p.program ns) s = (.ok (ok d ns p.key p.type (p.ttl.fill vs)), (R.transact now p.commands s).2) := by
  have hsent : Alone R now (p.program ns) s = _ := run_bind_ok (plan_sent h) _
  rw [hsent, Plan.answer, hd]
  rfl

/-- A write whose plan is made and whose commands are answered. -/
theorem endpoint_answered {o : Op} {p : Plan} {d : Json} (hwrite : checkAccess client ns "write" = true) (hvalid : o.valid = true)
    (hplan : o.plan st ns = some ("write", .ok p)) (h : replies (R.transact now p.commands s).1 = .ok vs) (hd : p.data vs = .ok d) :
    ∃ body, Alone R now (endpoint st (some client) ns o) s = (.ok body, (R.transact now p.commands s).2) := by
  refine ⟨ok d ns p.key p.type (p.ttl.fill vs), ?_⟩
  rw [← plan_answered h hd]
  show Alone R now (if (!o.valid) = true then _ else o.handle st client ns) s = _
  rw [hvalid, o.follows "write" (.ok p) hplan, requireAccess, if_pos hwrite]
  rfl

/-- A TTL that is read last leaves the rest as it is. -/
theorem answered_ttl (hT : R.Lifetimes) (cs : List (String × KeyCmd)) (h : replies (R.transact now cs s).1 = .ok vs) :
    (∃ ws, replies (R.transact now (cs ++ [(k, .ttl)]) s).1 = .ok ws) ∧
      (R.transact now (cs ++ [(k, .ttl)]) s).2 = (R.transact now cs s).2 := by
  have hread : ∀ s, R.atKey k .ttl now s = (.ok (.int (remaining now (s k))), s) := hT.atTtl k now
  constructor
  · induction cs generalizing s vs with
    | nil =>
      refine ⟨[.int (remaining now (s k))], ?_⟩
      show replies [(R.atKey k .ttl now s).1] = _
      rw [hread]
      rfl
    | cons x cs ih =>
      obtain ⟨v, ws, hv, hws, rfl⟩ := replies_cons h
      obtain ⟨us, hus⟩ := ih hws
      refine ⟨v :: us, ?_⟩
      have hv' : (R.atKey x.1 x.2 now s).1 = .ok v := hv
      have hus' : replies (R.transact now (cs ++ [(k, .ttl)]) (R.atKey x.1 x.2 now s).2).1 = .ok us := hus
      show replies ((R.atKey x.1 x.2 now s).1 :: (R.transact now (cs ++ [(k, .ttl)]) (R.atKey x.1 x.2 now s).2).1) = _
      rw [hv', replies, hus']
      rfl
  · rw [Server.transact_append]
    show (R.atKey k .ttl now _).2 = _
    rw [hread]

/-- A lifetime that was once set is never refused at that time. -/
theorem lifetime_answered (hT : R.Lifetimes) {e : Option Entry} {w : Json} (h : (R.onKey (lifetime k ttl).2 now e).1 = .ok w)
    (e' : Option Entry) : ∃ w', (R.onKey (lifetime k ttl).2 now e').1 = .ok w' := by
  unfold lifetime at *
  dsimp only at *
  by_cases httl : 0 < ttl
  · rw [if_pos httl] at h ⊢
    rcases hT.expire ttl now httl with hset | ⟨msg, hmsg⟩
    · rw [hset, expired]
      cases live now e' <;> exact ⟨_, rfl⟩
    · rw [hmsg] at h
      cases h
  · rw [if_neg httl]
    cases hl : live now e' with
    | none => exact ⟨_, congrArg Prod.fst (hT.persistMissing now e' hl)⟩
    | some x =>
      obtain ⟨b, hb⟩ := hT.persist now e' x hl
      exact ⟨_, congrArg Prod.fst hb⟩

end Answered

/-! ### Items one after another -/

section Items
variable {R : Server} {st : Settings} {client : ClientInfo} {ns k : String} {now : Nat} {s : Store} {α : Type} {single : α → Op}

/-- Each item has its own commands among those of the batch. -/
theorem inTurn_blocks {block : α → List (String × KeyCmd)} {xs : List α}
    (hone : ∀ x ∈ xs, ∀ s us, replies (R.transact now (block x) s).1 = .ok us →
      ∃ body, Alone R now (endpoint st (some client) ns (single x)) s = (.ok body, (R.transact now (block x) s).2))
    {vs : List Json} (h : replies (R.transact now (xs.flatMap block) s).1 = .ok vs) :
    InTurn R st client ns now s (xs.map single) (R.transact now (xs.flatMap block) s).2 := by
  induction xs generalizing s vs with
  | nil => exact .nil s
  | cons x xs ih =>
    rw [List.flatMap_cons] at h ⊢
    obtain ⟨us, ws, hus, hws⟩ := replies_append h
    obtain ⟨body, hbody⟩ := hone x List.mem_cons_self s us hus
    rw [Server.transact_append]
    exact .cons hbody (ih (fun y hy => hone y (List.mem_cons_of_mem _ hy)) hws)

theorem set_twice (s : Store) (k : String) (e e' : Option Entry) : (s.set k e).set k e' = s.set k e' := by
  funext k'
  by_cases hk : k' = k
  · rw [hk, Store.set_self, Store.set_self]
  · rw [Store.set_ne _ _ hk, Store.set_ne _ _ hk, Store.set_ne _ _ hk]

/-- Each item finds under the one key what the items before have put there. -/
theorem inTurn_onKey {β : Type} {e : β → Entry} {put : β → α → β} {G : β → List α → Prop} {P : Option Entry → β → Prop}
    (hone : ∀ x xs b s, G b (x :: xs) → P (s k) b →
      ∃ body, Alone R now (endpoint st (some client) ns (single x)) s = (.ok body, s.set k (some (e (put b x)))))
    (hG : ∀ x xs b, G b (x :: xs) → G (put b x) xs) (hP : ∀ x b, P (some (e (put b x))) (put b x))
    {xs : List α} (hne : xs ≠ []) {b : β} (hb : G b xs) (hs : P (s k) b) :
    InTurn R st client ns now s (xs.map single) (s.set k (some (e (xs.foldl put b)))) := by
  induction xs generalizing s b with
  | nil => exact absurd rfl hne
  | cons x xs ih =>
    obtain ⟨body, hbody⟩ := hone x xs b s hb hs
    refine .cons hbody ?_
    cases xs with
    | nil => exact .nil _
    | cons y xs =>
      have hfound : P (s.set k (some (e (put b x))) k) (put b x) := by
        rw [Store.set_self]
        exact hP x b
      have hrest := ih (List.cons_ne_nil y xs) (hG x _ b hb) hfound
      rw [set_twice] at hrest
      exact hrest

/-- The commands that a batch queues are those of its items, on the keys that are built for them. -/
theorem queueItems_blocks {β : Type} {typePrefix : String} {items : List (String × β)} {queue : String → β → List (String × KeyCmd)}
    {cs : List (String × KeyCmd)} (h : queueItems st ns typePrefix items queue = .ok cs) :
    ∃ name : String → String, cs = items.flatMap (fun x => queue (name x.1) x.2) ∧
      ∀ x ∈ items, buildKey st.engine ns typePrefix x.1 = .ok (name x.1) := by
  obtain ⟨name, hname⟩ : ∃ name : String → String, ∀ key k, buildKey st.engine ns typePrefix key = .ok k → name key = k :=
    ⟨fun key => (buildKey st.engine ns typePrefix key).toOption.getD "", fun _ _ hk => congrArg (fun x => x.toOption.getD "") hk⟩
  refine ⟨name, ?_⟩
  induction items generalizing cs with
  | nil =>
    cases h
    exact ⟨rfl, fun _ h => by cases h⟩
  | cons x items ih =>
    obtain ⟨k, rest, hk, hrest, rfl⟩ := queueItems_cons h
    obtain ⟨hcs, hkeys⟩ := ih hrest
    refine ⟨?_, List.forall_mem_cons.mpr ⟨?_, hkeys⟩⟩
    · rw [List.flatMap_cons, hname x.1 k hk, ← hcs]
    · rw [hname x.1 k hk, hk]

theorem checked_of_succeeds {x : Except Exn Unit} (h : Succeeds x) : x = .ok () := by
  obtain ⟨u, rfl⟩ := h
  rfl

theorem plan_made {x : Except Exn Unit} {typePrefix key : String} (hx : x = .ok ())
    (hk : buildKey st.engine ns typePrefix key = .ok k) (q : String → Plan) :
    (x >>= fun _ => buildKey st.engine ns typePrefix key >>= fun k => pure (q k)) = .ok (q k) := by
  rw [hx, hk]
  rfl

/-- A batch in one transaction, with commands of its own for each item. -/
theorem inTurn_batch {β : Type} {single : String × β → Op} {typePrefix : String} {items : List (String × β)}
    {queue : String → β → List (String × KeyCmd)} {x : Except Exn Unit} {q : List (String × KeyCmd) → Plan} {p : Plan}
    (hp : (x >>= fun _ => queueItems st ns typePrefix items queue >>= fun cs => pure (q cs)) = .ok p)
    (hcs : ∀ cs, (q cs).commands = cs) {vs : List Json} (hvs : replies (R.transact now p.commands s).1 = .ok vs)
    (hone : x = .ok () → ∀ y ∈ items, ∀ k, buildKey st.engine ns typePrefix y.1 = .ok k → ∀ s us,
      replies (R.transact now (queue k y.2) s).1 = .ok us →
        ∃ body, Alone R now (endpoint st (some client) ns (single y)) s = (.ok body, (R.transact now (queue k y.2) s).2)) :
    InTurn R st client ns now s (items.map single) (R.transact now p.commands s).2 := by
  obtain ⟨u, hx, hp⟩ := bind_ok.mp hp
  obtain ⟨cs, hqueued, hp⟩ := bind_ok.mp hp
  cases hp
  obtain ⟨name, rfl, hkeys⟩ := queueItems_blocks hqueued
  rw [hcs] at hvs ⊢
  exact inTurn_blocks (fun y hy => hone hx y hy (name y.1) (hkeys y hy)) hvs

end Items

/-! ### Batches with commands for each item -/

section Blocks
variable {R : Server} {st : Settings} {client : ClientInfo} {ns : String} {now : Nat} {s : Store} {vs : List Json} {p : Plan}

theorem size_checked {value label label' : String} (h : Succeeds (checkValueSize st value label)) :
    checkValueSize st value label' = .ok () :=
  checked_of_succeeds (succeeds_checkValueSize.mpr (succeeds_checkValueSize.mp h))

/-- A write of one key, with the commands that the batch has for it and the TTL. -/
theorem item_answered (hT : R.Lifetimes) (hwrite : checkAccess client ns "write" = true) {o : Op} (hvalid : o.valid = true)
    {k : String} {cs : List (String × KeyCmd)} (hplan : o.plan st ns = some ("write", .ok p)) (hcs : p.commands = cs ++ [(k, .ttl)])
    (hdata : ∀ vs, Succeeds (p.data vs)) (hvs : replies (R.transact now cs s).1 = .ok vs) :
    ∃ body, Alone R now (endpoint st (some client) ns o) s = (.ok body, (R.transact now cs s).2) := by
  obtain ⟨⟨ws, hws⟩, hsame⟩ := answered_ttl (k := k) hT cs hvs
  obtain ⟨d, hd⟩ := hdata ws
  rw [← hcs] at hws hsame
  rw [← hsame]
  exact endpoint_answered hwrite hvalid hplan hws hd

theorem inTurn_batchSetKv (hwrite : checkAccess client ns "write" = true) {body : KvBatchSetRequest} (hvalid : body.valid = true)
    (hplan : (KvOp.batchSetKv body).plan st ns = some ("write", .ok p)) (hvs : replies (R.transact now p.commands s).1 = .ok vs) :
    InTurn R st client ns now s (body.items.items.map fun x => .kv (.setKv x.1 ⟨x.2, body.ttl⟩)) (R.transact now p.commands s).2 := by
  simp only [KvBatchSetRequest.valid, Bool.and_eq_true, List.all_eq_true] at hvalid
  refine inTurn_batch (Prod.mk.inj (Option.some.inj hplan)).2 (fun _ => rfl) hvs fun hcheck x hx k hk s us hus => ?_
  have hsize : checkValueSize st x.2 = .ok () := size_checked (succeeds_forM.mp ⟨_, hcheck⟩ x hx)
  have hitem : (Op.kv (.setKv x.1 ⟨x.2, body.ttl⟩)).valid = true := by
    simp only [Op.valid, KvOp.valid, KvSetRequest.valid, Bool.and_eq_true]
    exact ⟨hvalid.1.2 x hx, hvalid.2⟩
  exact endpoint_answered hwrite hitem (congrArg (fun y => some ("write", y)) (plan_made hsize hk _)) hus rfl

theorem inTurn_batchSetMap (hT : R.Lifetimes) (hwrite : checkAccess client ns "write" = true) {body : MapBatchSetRequest}
    (hvalid : body.valid = true) (hplan : (MapOp.batchSetMap body).plan st ns = some ("write", .ok p))
    (hvs : replies (R.transact now p.commands s).1 = .ok vs) :
    InTurn R st client ns now s (body.items.items.map fun x => .map (.setMap x.1 ⟨x.2, body.ttl⟩)) (R.transact now p.commands s).2 := by
  simp only [MapBatchSetRequest.valid, Bool.and_eq_true, List.all_eq_true, decide_eq_true_eq] at hvalid
  refine inTurn_batch (Prod.mk.inj (Option.some.inj hplan)).2 (fun _ => rfl) hvs fun hcheck x hx k hk s us hus => ?_
  have hsizes : checkDictValuesSize st x.2 = .ok () := checked_of_succeeds (succeeds_forM.mp ⟨_, hcheck⟩ x hx)
  have hitem : (Op.map (.setMap x.1 ⟨x.2, body.ttl⟩)).valid = true := by
    simp only [Op.valid, MapOp.valid, MapSetRequest.valid, Bool.and_eq_true, List.all_eq_true, decide_eq_true_eq]
    exact ⟨hvalid.2 x hx, hvalid.1.2⟩
  exact item_answered hT hwrite hitem (congrArg (fun y => some ("write", y)) (plan_made hsizes hk _)) rfl
    (fun _ => succeeds_ok _) hus

theorem inTurn_batchAddGroup (hT : R.Lifetimes) (hwrite : checkAccess client ns "write" = true) {body : GroupBatchAddRequest}
    (hvalid : body.valid = true) (hplan : (GroupOp.batchAddGroup body).plan st ns = some ("write", .ok p))
    (hvs : replies (R.transact now p.commands s).1 = .ok vs) :
    InTurn R st client ns now s (body.items.items.map fun x => .group (.addGroup x.1 ⟨x.2, body.ttl⟩))
      (R.transact now p.commands s).2 := by
  simp only [GroupBatchAddRequest.valid, Bool.and_eq_true, List.all_eq_true, decide_eq_true_eq] at hvalid
  refine inTurn_batch (Prod.mk.inj (Option.some.inj hplan)).2 (fun _ => rfl) hvs fun hcheck x hx k hk s us hus => ?_
  have hsizes : (x.2.forM fun m => checkValueSize st m "Member") = .ok () := checked_of_succeeds (succeeds_forM.mp ⟨_, hcheck⟩ x hx)
  have hitem : (Op.group (.addGroup x.1 ⟨x.2, body.ttl⟩)).valid = true := by
    simp only [Op.valid, GroupOp.valid, GroupAddRequest.valid, Bool.and_eq_true, decide_eq_true_eq]
    exact ⟨(hvalid.2 x hx).1, hvalid.1.2⟩
  exact item_answered hT hwrite hitem (congrArg (fun y => some ("write", y)) (plan_made hsizes hk _)) rfl
    (fun _ => succeeds_ok _) hus

theorem inTurn_batchPublishEvent (hwrite : checkAccess client ns "write" = true) {key : String} {body : EventBatchPublishRequest}
    (hvalid : body.valid = true) (hplan : (EventOp.batchPublishEvent key body).plan st ns = some ("write", .ok p))
    (hvs : replies (R.transact now p.commands s).1 = .ok vs) :
    InTurn R st client ns now s (body.events.map fun evt => .event (.publishEvent key ⟨evt⟩)) (R.transact now p.commands s).2 := by
  simp only [EventBatchPublishRequest.valid, Bool.and_eq_true, List.all_eq_true] at hvalid
  obtain ⟨u, hcheck, hp⟩ := bind_ok.mp (Prod.mk.inj (Option.some.inj hplan)).2
  obtain ⟨k, hk, hp⟩ := bind_ok.mp hp
  cases hp
  have hblocks : (body.events.map fun evt => (k, KeyCmd.xadd evt.items st.defaults.maxStreamLength)) =
      body.events.flatMap fun evt => [(k, KeyCmd.xadd evt.items st.defaults.maxStreamLength)] := List.map_eq_flatMap
  dsimp only at hvs ⊢
  rw [hblocks] at hvs ⊢
  refine inTurn_blocks (fun evt hevt s us hus => ?_) hvs
  have hsizes : checkDictValuesSize st evt = .ok () := checked_of_succeeds (succeeds_forM.mp ⟨_, hcheck⟩ evt hevt)
  have hitem : (Op.event (.publishEvent key ⟨evt⟩)).valid = true := hvalid.2 evt hevt
  exact endpoint_answered hwrite hitem (congrArg (fun y => some ("write", y)) (plan_made hsizes hk _)) hus rfl

end Blocks

/-! ### Batches for one key -/

section OneKey
variable {R : Server} {st : Settings} {client : ClientInfo} {ns k : String} {now : Nat} {s t : Store}

/-- A key that is there gets its lifetime. -/
theorem lifetime_sent (hT : R.Lifetimes) {ttl : Int} (hset : ∀ e, ∃ w, (R.onKey (lifetime k ttl).2 now e).1 = .ok w) {x : Entry}
    (hlive : live now (some x) = some x) (s : Store) :
    (∃ vs, replies (R.transact now [lifetime k ttl, (k, .ttl)] (s.set k (some x))).1 = .ok vs) ∧
      (R.transact now [lifetime k ttl, (k, .ttl)] (s.set k (some x))).2 = s.set k (some { x with deadline := deadlineFor now ttl }) := by
  obtain ⟨w, hw⟩ := hset (some x)
  have hself : (s.set k (some x)) k = some x := Store.set_self ..
  have hgiven : R.atKey k (lifetime k ttl).2 now (s.set k (some x)) =
      (.ok w, s.set k (some { x with deadline := deadlineFor now ttl })) := by
    rw [Server.atKey, hself, hw, lifetime_gives hT hlive hw, set_twice]
  have hreply : replies (R.transact now [lifetime k ttl] (s.set k (some x))).1 = .ok [w] := by
    show replies [(R.atKey k (lifetime k ttl).2 now (s.set k (some x))).1] = _
    rw [hgiven]
    rfl
  obtain ⟨hreplies, hsame⟩ := answered_ttl (k := k) hT [lifetime k ttl] hreply
  refine ⟨hreplies, hsame.trans ?_⟩
  show (R.atKey k (lifetime k ttl).2 now (s.set k (some x))).2 = _
  rw [hgiven]

/-- The lifetime is set at that time. -/
theorem lifetime_replied (hT : R.Lifetimes) {ttl : Int} {cs : List (String × KeyCmd)} {vs : List Json}
    (h : replies (R.transact now (lifetime k ttl :: cs) s).1 = .ok vs) (e : Option Entry) :
    ∃ w, (R.onKey (lifetime k ttl).2 now e).1 = .ok w := by
  obtain ⟨w, ws, hw, -, -⟩ := replies_cons h
  exact lifetime_answered hT (k := k) hw e

/-! #### Sorted sets -/

/-- Members with scores and a lifetime, for a key that holds a sorted set or nothing. -/
theorem zadd_sent (hT : R.Lifetimes) (hZ : R.SortedSets) {ttl : Int} (hset : ∀ e, ∃ w, (R.onKey (lifetime k ttl).2 now e).1 = .ok w)
    {members : List (String × Score)} (hne : members ≠ []) (hnan : ∀ x ∈ members, x.2 ≠ .nan) (hs : HasKind .zset (s k)) :
    (∃ vs, replies (R.transact now [(k, .zadd members), lifetime k ttl, (k, .ttl)] s).1 = .ok vs) ∧
      (R.transact now [(k, .zadd members), lifetime k ttl, (k, .ttl)] s).2 =
        s.set k (some ⟨.zset (members.foldl putField (ranking now (s k))), deadlineFor now ttl⟩) := by
  obtain ⟨v, hv⟩ := hZ.zadd members now (s k) hne hs hnan
  have hadded : R.atKey k (.zadd members) now s =
      (.ok v, s.set k (some ⟨.zset (members.foldl putField (ranking now (s k))), deadlineOf now (s k)⟩)) := by
    rw [Server.atKey, hv]
  obtain ⟨⟨vs, hvs⟩, hstate⟩ := lifetime_sent hT hset (live_deadlineOf now (s k) (.zset (members.foldl putField (ranking now (s k))))) s
  constructor
  · refine ⟨v :: vs, ?_⟩
    show replies ((R.atKey k (.zadd members) now s).1 ::
      (R.transact now [lifetime k ttl, (k, .ttl)] (R.atKey k (.zadd members) now s).2).1) = _
    rw [hadded, replies, hvs]
    rfl
  · show (R.transact now [lifetime k ttl, (k, .ttl)] (R.atKey k (.zadd members) now s).2).2 = _
    rw [hadded]
    exact hstate

theorem inTurn_batchAddRank (hT : R.Lifetimes) (hZ : R.SortedSets) (hs : s.Typed (StoredAs st.engine))
    (hwrite : checkAccess client ns "write" = true) {key : String} {body : RankBatchAddRequest} (hvalid : body.valid = true) {p : Plan}
    (hplan : (RankOp.batchAddRank key body).plan st ns = some ("write", .ok p)) {vs : List Json}
    (hvs : replies (R.transact now p.commands s).1 = .ok vs) :
    InTurn R st client ns now s (body.members.map fun x => .rank (.addRank key ⟨x.1, x.2, body.ttl⟩))
      (R.transact now p.commands s).2 := by
  simp only [RankBatchAddRequest.valid, batchSize, Bool.and_eq_true, List.all_eq_true, decide_eq_true_eq] at hvalid
  obtain ⟨⟨⟨hlength, -⟩, hmembers⟩, httl⟩ := hvalid
  obtain ⟨u, hcheck, hp⟩ := bind_ok.mp (Prod.mk.inj (Option.some.inj hplan)).2
  obtain ⟨k, hk, hp⟩ := bind_ok.mp hp
  cases hp
  have hgood : ∀ x ∈ body.members, SizeOk st x.1 ∧ x.2.isfinite = true := fun x hx =>
    succeeds_checkRankMember.mp (succeeds_forM.mp ⟨_, hcheck⟩ x hx)
  have hset : ∀ e, ∃ w, (R.onKey (lifetime k (resolveTtl st body.ttl)).2 now e).1 = .ok w := by
    obtain ⟨v, ws, -, hws, -⟩ := replies_cons hvs
    have hlast : replies (R.transact now (lifetime k (resolveTtl st body.ttl) :: [(k, .ttl)])
      (R.atKey k (.zadd (Dict.ofList body.members).items) now s).2).1 = .ok ws := hws
    exact lifetime_replied hT hlast
  have hne : body.members ≠ [] := List.ne_nil_of_length_pos hlength
  have hzset : HasKind .zset (s k) := hs .zset k (storedAs_build rfl hk)
  obtain ⟨-, hbatch⟩ := zadd_sent hT hZ hset (dict_adds hne).1
    (fun x hx => ne_nan_of_finite (hgood x (Dict.mem_ofList hx)).2) hzset
  dsimp only
  rw [hbatch, foldl_ofList]
  refine @inTurn_onKey R st client ns k now s (String × Score) (fun x => .rank (.addRank key ⟨x.1, x.2, body.ttl⟩)) (List (String × Score))
    (fun ms => ⟨.zset ms, deadlineFor now (resolveTtl st body.ttl)⟩) putField
    (fun _ xs => ∀ x ∈ xs, nonEmpty x.1 = true ∧ SizeOk st x.1 ∧ x.2.isfinite = true)
    (fun e ms => HasKind .zset e ∧ ranking now e = ms) (fun x xs ms u hx hu => ?_)
    (fun x xs ms hx y hy => hx y (List.mem_cons_of_mem _ hy)) (fun x ms => ⟨?_, ?_⟩) _ hne _
    (fun x hx => ⟨hmembers x hx, hgood x hx⟩) ⟨hzset, rfl⟩
  · obtain ⟨hnonempty, hsize, hfinite⟩ := hx x List.mem_cons_self
    have hone : ∀ y ∈ [(x.1, x.2)], y.2 ≠ .nan := by
      intro y hy
      rw [List.mem_singleton.mp hy]
      exact ne_nan_of_finite hfinite
    obtain ⟨⟨ws, hws⟩, hstate⟩ := zadd_sent hT hZ hset (List.cons_ne_nil _ _) hone hu.1
    rw [hu.2] at hstate
    have hitem : (Op.rank (.addRank key ⟨x.1, x.2, body.ttl⟩)).valid = true := by
      simp only [Op.valid, RankOp.valid, RankAddRequest.valid, Bool.and_eq_true]
      exact ⟨hnonempty, httl⟩
    have hmade : (Op.rank (.addRank key ⟨x.1, x.2, body.ttl⟩)).plan st ns = some ("write", .ok {
        sending := .pipeline
        commands := [(k, .zadd [(x.1, x.2)]), lifetime k (resolveTtl st body.ttl), (k, .ttl)]
        onError := fun _ => error "INVALID_VALUE" "Score is not a valid number (nan)"
        key := key, type := "zset", ttl := .normalized
        data := fun vs => .ok (.obj [("added", first vs), ("member", .str x.1), ("score", .float x.2)]) }) := by
      show some ("write", checkValueSize st x.1 "Member" >>= fun _ => _) = _
      rw [checked_of_succeeds (succeeds_checkValueSize.mpr hsize), hfinite, hk]
      rfl
    obtain ⟨answer, hanswer⟩ := endpoint_answered hwrite hitem hmade hws rfl
    exact ⟨answer, hanswer.trans (congrArg _ hstate)⟩
  · exact fun y hy => by cases hy; rfl
  · rw [ranking, live_deadlineFor]

/-! #### Lists -/

/-- A push whose checks pass, whose script finds room, and whose lifetime is set. -/
theorem push_answered (hT : R.Lifetimes) (hwrite : checkAccess client ns "write" = true) {o : QueueOp}
    (hvalid : (Op.queue o).valid = true) {p : Push} (hp : o.push st = some p) (hcheck : p.check = .ok ())
    (hk : buildKey st.engine ns queuePrefix p.key = .ok k)
    (hset : ∀ e, ∃ w, (R.onKey (lifetime k p.ttl).2 now e).1 = .ok w) {result : Json} {x : Entry}
    (hscript : OnEntry R now p.body (s k) = (.ok result, some x)) (hroom : result.isInt (-1) = false) (hlive : live now (some x) = some x) :
    ∃ body, Alone R now (endpoint st (some client) ns (.queue o)) s =
      (.ok body, s.set k (some { x with deadline := deadlineFor now p.ttl })) := by
  obtain ⟨⟨vs, hvs⟩, hstate⟩ := lifetime_sent hT hset hlive s
  have hrun : Alone R now (script k p.body) s = (.ok result, s.set k (some x)) := by
    have hask : Alone R now (Prog.ask (Call.redis (.eval k p.body))) s = (.ok (.ok result), s.set k (some x)) :=
      Prod.ext (congrArg (fun y : _ × Option Entry => (Except.ok y.1 : Except Exn Reply)) hscript)
        (congrArg (fun y : _ × Option Entry => s.set k y.2) hscript)
    exact run_bind_ok hask _
  have hpipeline : Alone R now (pipeline [lifetime k p.ttl, (k, .ttl)]) (s.set k (some x)) =
      (.ok vs, s.set k (some { x with deadline := deadlineFor now p.ttl })) := by
    have hall : Alone R now (pipeline [lifetime k p.ttl, (k, .ttl)]) (s.set k (some x)) = _ :=
      run_bind_ok (run_sendAll [lifetime k p.ttl, (k, .ttl)] now (s.set k (some x))) _
    rw [hall, raiseFirstError_eq, hvs, hstate]
    rfl
  refine ⟨ok (p.data result) ns p.key "list" (normalizedTtl (last vs)), ?_⟩
  show Alone R now (if (!(Op.queue o).valid) = true then _ else o.handle st client ns) s = _
  rw [hvalid, QueueOp.pushes hp, requireWrite, requireAccess, if_pos hwrite]
  show Alone R now (p.program st ns) s = _
  unfold Push.program
  rw [hcheck, hk]
  have hpushed : ∀ f : Json → Handler Json, Alone R now ((script k p.body).bind f) s = Alone R now (f result) (s.set k (some x)) :=
    fun f => run_bind_ok hrun f
  refine (hpushed _).trans ?_
  rw [hroom]
  exact run_bind_ok hpipeline _

theorem inTurn_batchPushQueue (hT : R.Lifetimes) (hL : R.Lists) (hs : s.Typed (StoredAs st.engine)) (hsolid : ∀ k, Solid (s k))
    (hwrite : checkAccess client ns "write" = true) {key : String} {body : QueueBatchPushRequest} (hvalid : body.valid = true)
    {p : Push} (hp : (QueueOp.batchPushQueue key body).push st = some p) {answer : Json}
    (h : Alone R now (p.program st ns) s = (.ok answer, t)) :
    InTurn R st client ns now s (body.values.map fun v => .queue (.pushQueue key ⟨v, body.direction, body.ttl⟩)) t := by
  simp only [QueueBatchPushRequest.valid, batchSize, Bool.and_eq_true, List.all_eq_true, decide_eq_true_eq] at hvalid
  obtain ⟨⟨⟨hlength, -⟩, hvalues⟩, httl⟩ := hvalid
  have hne : body.values ≠ [] := List.ne_nil_of_length_pos hlength
  cases hp
  obtain ⟨k, result, u, vs, hcheck, hk, hscript, hroom, hvs, rfl, -⟩ := alone_push h
  have hset : ∀ e, ∃ w, (R.onKey (lifetime k (resolveTtl st body.ttl)).2 now e).1 = .ok w := lifetime_replied hT hvs
  have hsizes : ∀ v ∈ body.values, SizeOk st v := fun v hv => succeeds_checkValueSize.mp (succeeds_forM.mp ⟨_, hcheck⟩ v hv)
  have hlist : IsList (s k) := isList_of_kind (hs .list k (storedAs_build rfl hk)) (hsolid k)
  obtain ⟨hentry, helse⟩ := alone_script hscript
  have hrun : OnEntry R now (batchPushLua body.direction st.defaults.maxListLength body.values) (s k) = _ :=
    run_batchPushLua hL hlist body.direction body.values st.defaults.maxListLength
  have hfits : ¬(st.defaults.maxListLength : Int) < (found now (s k)).length + body.values.length := by
    intro hfull
    rw [if_pos hfull, hentry] at hrun
    rw [Except.ok.inj (congrArg Prod.fst hrun)] at hroom
    cases hroom
  rw [if_neg hfits, if_neg hne, hentry] at hrun
  have hu : u = s.set k (some ⟨.list (pushedOn body.direction body.values (found now (s k))), deadlineOf now (s k)⟩) := by
    funext k'
    by_cases hkk : k' = k
    · rw [hkk, Store.set_self]
      exact congrArg Prod.snd hrun
    · rw [helse k' hkk, Store.set_ne _ _ hkk]
  obtain ⟨-, hstate⟩ := lifetime_sent hT hset (live_deadlineOf now (s k) _) s
  rw [hu, hstate]
  have hfold : ∀ (values xs : List String), values ≠ [] →
      values.foldl (fun xs v => pushedOn body.direction [v] xs) xs = pushedOn body.direction values xs := by
    intro values
    induction values with
    | nil => exact fun xs hne => absurd rfl hne
    | cons v values ih =>
      intro xs _
      cases values with
      | nil => rfl
      | cons w values => rw [List.foldl_cons, ih _ (List.cons_ne_nil w values), pushedOn_cons]
  rw [← hfold body.values (found now (s k)) hne]
  refine inTurn_onKey (P := fun e xs => IsList e ∧ found now e = xs)
    (G := fun xs vs => xs.length + vs.length ≤ st.defaults.maxListLength ∧ ∀ v ∈ vs, nonEmpty v = true ∧ SizeOk st v)
    (e := fun xs => ⟨.list xs, deadlineFor now (resolveTtl st body.ttl)⟩) (fun v vs xs u hv hu => ?_)
    (fun v vs xs hv => ⟨?_, fun w hw => hv.2 w (List.mem_cons_of_mem _ hw)⟩) (fun v xs => ⟨isList_pushedOn, ?_⟩) hne
    ⟨by omega, fun v hv => ⟨hvalues v hv, hsizes v hv⟩⟩ ⟨hlist, rfl⟩
  · obtain ⟨hnonempty, hsize⟩ := hv.2 v List.mem_cons_self
    have hpush : OnEntry R now (singlePushLua body.direction v st.defaults.maxListLength) (u k) = _ :=
      run_singlePushLua hL hu.1 body.direction v st.defaults.maxListLength
    have hspace : ¬(st.defaults.maxListLength : Int) ≤ (found now (u k)).length := by
      have hlen := hv.1
      rw [List.length_cons] at hlen
      rw [hu.2]
      omega
    rw [if_neg hspace, hu.2] at hpush
    have hitem : (Op.queue (.pushQueue key ⟨v, body.direction, body.ttl⟩)).valid = true := by
      simp only [Op.valid, QueueOp.valid, QueuePushRequest.valid, Bool.and_eq_true]
      exact ⟨hnonempty, httl⟩
    have hplus : (Json.int ((xs.length : Int) + 1)).isInt (-1) = false := by
      simp [Json.isInt]
      omega
    exact push_answered hT hwrite hitem rfl (checked_of_succeeds (succeeds_checkValueSize.mpr hsize)) hk hset hpush hplus
      (live_deadlineOf now (u k) _)
  · have hlen := hv.1
    rw [List.length_cons] at hlen
    rw [pushedOn_length]
    simp only [List.length_singleton]
    omega
  · rw [found, live_deadlineFor]
    rfl

end OneKey

/-! ### Batches that are refused -/

/-- The answer to an error of Redis. -/
def Exn.OfRedis (e : Exn) : Prop :=
  (∃ msg, e = .redis msg) ∨ e = error "INVALID_VALUE" "Score is not a valid number (nan)"

section Refused
variable {R : Server} {st : Settings} {ns : String} {now : Nat} {s t : Store} {e : Exn}

/-- A plan that makes an answer of any replies fails with an error of Redis only. -/
theorem program_refused {p : Plan} (hdata : ∀ vs, Succeeds (p.data vs)) (h : Alone R now (p.program ns) s = (.error e, t)) :
    ∃ msg, e = p.onError msg := by
  rcases alone_bind_error h with hsend | ⟨r, u, -, hanswer⟩
  · obtain ⟨r, u, hr⟩ := @send_total R now p s
    rw [hr] at hsend
    cases hsend
  · cases r with
    | error msg =>
      cases hanswer
      exact ⟨msg, rfl⟩
    | ok vs =>
      obtain ⟨d, hd⟩ := hdata vs
      rw [Plan.answer, hd] at hanswer
      cases hanswer

theorem access_refused {client : ClientInfo} {operation : String} {f : Unit → Handler Json}
    (h : Alone R now ((requireAccess client ns operation).bind f) s = (.error e, t)) :
    (checkAccess client ns operation = false ∧ SameData s t) ∨ Alone R now (f ()) s = (.error e, t) := by
  cases ha : checkAccess client ns operation with
  | true =>
    rw [requireAccess, if_pos ha] at h
    exact Or.inr h
  | false =>
    rw [requireAccess, ha] at h
    cases h
    exact Or.inl ⟨rfl, fun k hk => (agree_fireMetric _ now s k hk).symm⟩

theorem ofExcept_refused {α : Type} {x : Except Exn α} {f : α → Handler Json}
    (h : Alone R now ((Prog.ofExcept x).bind f) s = (.error e, t)) : t = s ∨ ∃ a, x = .ok a ∧ Alone R now (f a) s = (.error e, t) := by
  cases x with
  | error e' =>
    cases h
    exact Or.inl rfl
  | ok a => exact Or.inr ⟨a, rfl, h⟩

/-- A push that is refused has left the list as it was, unless Redis has refused it. -/
theorem push_refused (hL : R.Lists) (hs : s.Typed (StoredAs st.engine)) (hsolid : ∀ k, Solid (s k)) {q : QueueOp} {p : Push}
    (hq : q.push st = some p) (h : Alone R now (p.program st ns) s = (.error e, t)) (he : ∀ msg, e ≠ .redis msg) : t = s := by
  rcases ofExcept_refused h with rfl | ⟨-, -, h⟩
  · rfl
  rcases ofExcept_refused h with rfl | ⟨k, hk, h⟩
  · rfl
  have hlist : IsList (s k) := isList_of_kind (hs .list k (storedAs_build rfl hk)) (hsolid k)
  rcases alone_bind_error h with hscript | ⟨result, u, hscript, hpushed⟩
  · obtain ⟨msg, rfl⟩ := raised (raises_script k p.body) hscript
    exact absurd rfl (he msg)
  · obtain ⟨hentry, helse⟩ := alone_script hscript
    cases hfull : result.isInt (-1) with
    | true =>
      rw [hfull] at hpushed
      cases hpushed
      have hsame := push_full hL hq hlist (congrArg Prod.fst hentry) hfull
      rw [hentry] at hsame
      funext k'
      by_cases hkk : k' = k
      · subst hkk
        exact hsame
      · exact helse k' hkk
    | false =>
      rw [hfull] at hpushed
      obtain ⟨msg, rfl⟩ := raised (raises_bind (ends_pipeline _) fun _ => raises_pure _) hpushed
      exact absurd rfl (he msg)

/-- The plan answers whatever is replied, and its errors are those of Redis. -/
def Plan.Answers (p : Plan) : Prop := (∀ vs, Succeeds (p.data vs)) ∧ ∀ msg, (p.onError msg).OfRedis

theorem singles_planned {o : Op} {os : List Op} (ho : o.singles = some os) : (o.plan st ns).All Plan.Answers := by
  have hmade : ∀ {α β : Type} {x : Except Exn α} {y : α → Except Exn β} {q : β → Plan}, (∀ b, (q b).Answers) →
      Planned.All Plan.Answers (some ("write", x >>= fun a => y a >>= fun b => pure (q b))) :=
    fun h => Planned.all_some (Yields.bind fun _ _ => Yields.bind fun b _ => yields_pure (h b))
  cases o with
  | kv o => cases o with
    | batchSetKv body => exact hmade fun _ => ⟨fun _ => succeeds_ok _, fun msg => Or.inl ⟨msg, rfl⟩⟩
    | _ => cases ho
  | map o => cases o with
    | batchSetMap body => exact hmade fun _ => ⟨fun _ => succeeds_ok _, fun msg => Or.inl ⟨msg, rfl⟩⟩
    | _ => cases ho
  | group o => cases o with
    | batchAddGroup body => exact hmade fun _ => ⟨fun _ => succeeds_ok _, fun msg => Or.inl ⟨msg, rfl⟩⟩
    | _ => cases ho
  | rank o => cases o with
    | batchAddRank key body => exact hmade fun _ => ⟨fun _ => succeeds_ok _, fun _ => Or.inr rfl⟩
    | _ => cases ho
  | event o => cases o with
    | batchPublishEvent key body => exact hmade fun _ => ⟨fun _ => succeeds_ok _, fun msg => Or.inl ⟨msg, rfl⟩⟩
    | _ => cases ho
  | queue o => cases o with
    | batchPushQueue key body => exact Planned.all_none
    | _ => cases ho
  | pubsub o => cases ho

/-- A batch write without a plan is a push. -/
theorem singles_pushed {o : Op} {os : List Op} (ho : o.singles = some os) (hnone : o.plan st ns = none) :
    ∃ key body, o = .queue (.batchPushQueue key body) := by
  cases o with
  | kv q => cases q <;> first | exact absurd hnone (Option.some_ne_none _) | cases ho
  | map q => cases q <;> exact absurd hnone (Option.some_ne_none _)
  | group q => cases q <;> first | exact absurd hnone (Option.some_ne_none _) | cases ho
  | rank q => cases q <;> exact absurd hnone (Option.some_ne_none _)
  | event q => cases q <;> first | exact absurd hnone (Option.some_ne_none _) | cases ho
  | queue q => cases q <;> first | exact ⟨_, _, rfl⟩ | cases ho
  | pubsub q => cases ho

theorem singles_write {o : Op} {os : List Op} (ho : o.singles = some os) {operation : String} {x : Except Exn Plan}
    (hx : o.plan st ns = some (operation, x)) : operation = "write" := by
  cases o with
  | pubsub q => cases ho
  | queue q => cases q with
    | batchPushQueue key body => cases hx
    | _ => cases ho
  | _ q => cases q <;> first | exact (Prod.mk.inj (Option.some.inj hx)).1.symm | cases ho

/-- The request comes from a client that may write in the namespace. -/
def MayWrite (client : Option ClientInfo) (ns : String) : Prop := ∃ c, client = some c ∧ checkAccess c ns "write" = true

theorem denied {c : ClientInfo} (h : checkAccess c ns "write" = false) : ¬MayWrite (some c) ns := by
  rintro ⟨c', hc, hwrite⟩
  cases hc
  rw [h] at hwrite
  cases hwrite

/-- A batch that is refused, and not by Redis, has left the store as it was; or it may not write, and has left all data as it was. -/
theorem batch_refused (hL : R.Lists) (hs : s.Typed (StoredAs st.engine)) (hsolid : ∀ k, Solid (s k)) {o : Op} {os : List Op}
    (ho : o.singles = some os) {client : Option ClientInfo} (h : Alone R now (endpoint st client ns o) s = (.error e, t))
    (he : ¬e.OfRedis) : t = s ∨ ¬MayWrite client ns ∧ SameData s t := by
  cases client with
  | none =>
    cases h
    exact Or.inr ⟨fun ⟨c, hc, _⟩ => Option.some_ne_none c hc.symm, fun k hk => (agree_fireMetric "auth_fail" now s k hk).symm⟩
  | some c =>
    have h : Alone R now (if (!o.valid) = true then Prog.raise .unprocessable else o.handle st c ns) s = (.error e, t) := h
    cases hvalid : o.valid with
    | false =>
      rw [hvalid] at h
      cases h
      exact Or.inl rfl
    | true =>
      rw [hvalid] at h
      have h : Alone R now (o.handle st c ns) s = (.error e, t) := h
      by_cases hnone : o.plan st ns = none
      · obtain ⟨key, body, rfl⟩ := singles_pushed ho hnone
        obtain ⟨p, hp⟩ : ∃ p, (QueueOp.batchPushQueue key body).push st = some p := ⟨_, rfl⟩
        have hpushes : (Op.queue (.batchPushQueue key body)).handle st c ns = (requireAccess c ns "write").bind fun _ => p.program st ns :=
          QueueOp.pushes hp
        rw [hpushes] at h
        rcases access_refused h with ⟨hno, hsame⟩ | h
        · exact Or.inr ⟨denied hno, hsame⟩
        · exact Or.inl (push_refused hL hs hsolid hp h fun msg hmsg => he (Or.inl ⟨msg, hmsg⟩))
      · obtain ⟨⟨operation, x⟩, hx⟩ := Option.ne_none_iff_exists'.mp hnone
        obtain rfl := singles_write ho hx
        rw [o.follows "write" x hx] at h
        rcases access_refused h with ⟨hno, hsame⟩ | h
        · exact Or.inr ⟨denied hno, hsame⟩
        rcases ofExcept_refused h with rfl | ⟨p, rfl, h⟩
        · exact Or.inl rfl
        · obtain ⟨hdata, herror⟩ := singles_planned ho "write" (.ok p) hx p rfl
          obtain ⟨msg, rfl⟩ := program_refused hdata h
          exact absurd (herror msg) he

end Refused

/-! ### Batches and their single writes -/

section Batches
variable {R : Server} {st : Settings} {ns : String} {now : Nat} {s t : Store}

theorem batch_inTurn (hT : R.Lifetimes) (hL : R.Lists) (hZ : R.SortedSets) (hs : s.Typed (StoredAs st.engine))
    (hsolid : ∀ k, Solid (s k)) {o : Op} {os : List Op} (ho : o.singles = some os) {client : Option ClientInfo} {body : Json}
    (h : Alone R now (endpoint st client ns o) s = (.ok body, t)) : ∃ c, client = some c ∧ InTurn R st c ns now s os t := by
  obtain ⟨c, rfl, hvalid, hrun⟩ := alone_endpoint h
  refine ⟨c, rfl, ?_⟩
  by_cases hnone : o.plan st ns = none
  · obtain ⟨key, b, rfl⟩ := singles_pushed ho hnone
    obtain ⟨p, hp⟩ : ∃ p, (QueueOp.batchPushQueue key b).push st = some p := ⟨_, rfl⟩
    have hpushes : (Op.queue (.batchPushQueue key b)).handle st c ns = (requireAccess c ns "write").bind fun _ => p.program st ns :=
      QueueOp.pushes hp
    rw [hpushes] at hrun
    obtain ⟨u, v, hguard, hprogram⟩ := alone_bind_ok hrun
    obtain ⟨hwrite, rfl⟩ := alone_guard_ok hguard
    cases ho
    exact inTurn_batchPushQueue hT hL hs hsolid hwrite hvalid hp hprogram
  · obtain ⟨operation, p, hplan, haccess, hprogram⟩ := alone_planned o.follows hnone hrun
    obtain ⟨vs, d, hvs, rfl, -, -⟩ := alone_program hprogram
    obtain rfl := singles_write ho hplan
    cases o with
    | kv o => cases o with
      | batchSetKv b =>
        cases ho
        exact inTurn_batchSetKv haccess hvalid hplan hvs
      | _ => cases ho
    | map o => cases o with
      | batchSetMap b =>
        cases ho
        exact inTurn_batchSetMap hT haccess hvalid hplan hvs
      | _ => cases ho
    | group o => cases o with
      | batchAddGroup b =>
        cases ho
        exact inTurn_batchAddGroup hT haccess hvalid hplan hvs
      | _ => cases ho
    | rank o => cases o with
      | batchAddRank key b =>
        cases ho
        exact inTurn_batchAddRank hT hZ hs haccess hvalid hplan hvs
      | _ => cases ho
    | event o => cases o with
      | batchPublishEvent key b =>
        cases ho
        exact inTurn_batchPublishEvent haccess hvalid hplan hvs
      | _ => cases ho
    | queue o => cases o with
      | batchPushQueue key b => exact absurd rfl hnone
      | _ => cases ho
    | pubsub o => cases ho

/-- A batch write on keys of their types, alone and at one time: if it succeeds, the single writes of its items succeed one after
    another and leave the same store; if it is refused, and not by Redis, the store is as it was, or the client may not write and
    all data is as it was. -/
theorem batch_refines_singles (hT : R.Lifetimes) (hL : R.Lists) (hZ : R.SortedSets) (hs : s.Typed (StoredAs st.engine))
    (hsolid : ∀ k, Solid (s k)) {o : Op} {os : List Op} (ho : o.singles = some os) (client : Option ClientInfo) (now : Nat) :
    (∀ body t, Alone R now (endpoint st client ns o) s = (.ok body, t) → ∃ c, client = some c ∧ InTurn R st c ns now s os t) ∧
      ∀ e t, Alone R now (endpoint st client ns o) s = (.error e, t) → ¬e.OfRedis → t = s ∨ ¬MayWrite client ns ∧ SameData s t :=
  ⟨fun _ _ h => batch_inTurn hT hL hZ hs hsolid ho h, fun _ _ h he => batch_refused hL hs hsolid ho h he⟩

end Batches

def pushesOf (values : List String) : Op := .queue (.batchPushQueue "q" ⟨values, .right, none⟩)

def scoresOf (members : List (String × Score)) : Op := .rank (.batchAddRank "r" ⟨members, none⟩)

def shortQueues : Settings := { defaults := { maxListLength := 2 } }

/-- One member with a score, and a lifetime that a write without a TTL replaces. -/
def oneScore : Store := Store.empty.set "app:rank:r" (some ⟨.zset [("m", .fin 1)], some 9000⟩)

theorem oneScore_typed : oneScore.Typed (StoredAs .python) := by
  have hbuilt : buildKey .python "app" rankPrefix "r" = .ok "app:rank:r" := rfl
  refine typed_single rfl hbuilt fun x hx => ?_
  cases hx
  rfl

theorem oneScore_solid : ∀ k, Solid (oneScore k) :=
  solid_set (fun _ => solid_none) (solid_some (List.cons_ne_nil _ _))

/-- A batch that its client may not write is refused, and the store counts it. -/
theorem denied_batch_counted : ∃ t, Alone reference 5 (endpoint {} (some readOnlyClient) "app" (pushesOf ["a", "b"])) Store.empty =
    (.error (error "NAMESPACE_DENIED" "Access to namespace 'app' with 'write' permission is not allowed for client 'reader'" 403), t) ∧
    Store.empty (authFailKey "namespace_denied") = none ∧ t (authFailKey "namespace_denied") ≠ none := by
  obtain ⟨t, ht, hcount⟩ : ∃ t, Alone reference 5 (endpoint {} (some readOnlyClient) "app" (pushesOf ["a", "b"])) Store.empty =
    (.error (error "NAMESPACE_DENIED" "Access to namespace 'app' with 'write' permission is not allowed for client 'reader'" 403), t) ∧
    t (authFailKey "namespace_denied") = some ⟨.str "1", none⟩ := ⟨_, rfl, rfl⟩
  refine ⟨t, ht, rfl, ?_⟩
  rw [hcount]
  exact Option.some_ne_none _

/-- Scores of two members, one of them twice, and two values that fit into a queue; three do not fit, and leave it alone. -/
theorem batch_refines_singles_two : ∃ (body : Json) (t : Store) (body' : Json) (t' : Store) (e : Exn) (u : Store),
    Alone reference 5 (endpoint shortQueues (some batchWriter) "app" (scoresOf [("m", .fin 2), ("n", .fin 3), ("m", .fin 4)])) oneScore =
      (.ok body, t) ∧ t "app:rank:r" = some ⟨.zset [("m", .fin 4), ("n", .fin 3)], some 86400005⟩ ∧
    InTurn reference shortQueues batchWriter "app" 5 oneScore
      [.rank (.addRank "r" ⟨"m", .fin 2, none⟩), .rank (.addRank "r" ⟨"n", .fin 3, none⟩), .rank (.addRank "r" ⟨"m", .fin 4, none⟩)] t ∧
    Alone reference 5 (endpoint shortQueues (some batchWriter) "app" (pushesOf ["a", "b"])) oneScore = (.ok body', t') ∧
    t' "app:q:q" = some ⟨.list ["a", "b"], some 86400005⟩ ∧
    InTurn reference shortQueues batchWriter "app" 5 oneScore
      [.queue (.pushQueue "q" ⟨"a", .right, none⟩), .queue (.pushQueue "q" ⟨"b", .right, none⟩)] t' ∧
    Alone reference 5 (endpoint shortQueues (some batchWriter) "app" (pushesOf ["a", "b", "c"])) oneScore = (.error e, u) ∧ u = oneScore := by
  obtain ⟨body, t, h, ht⟩ : ∃ body t, Alone reference 5 (endpoint shortQueues (some batchWriter) "app"
      (scoresOf [("m", .fin 2), ("n", .fin 3), ("m", .fin 4)])) oneScore = (.ok body, t) ∧
      t "app:rank:r" = some ⟨.zset [("m", .fin 4), ("n", .fin 3)], some 86400005⟩ := ⟨_, _, rfl, rfl⟩
  obtain ⟨body', t', h', ht'⟩ : ∃ body t, Alone reference 5 (endpoint shortQueues (some batchWriter) "app"
      (pushesOf ["a", "b"])) oneScore = (.ok body, t) ∧ t "app:q:q" = some ⟨.list ["a", "b"], some 86400005⟩ := ⟨_, _, rfl, rfl⟩
  obtain ⟨u, hu⟩ : ∃ u, Alone reference 5 (endpoint shortQueues (some batchWriter) "app" (pushesOf ["a", "b", "c"])) oneScore =
      (.error (error "QUEUE_FULL" "Queue 'q' would exceed max length (2)"), u) := ⟨_, rfl⟩
  obtain ⟨hscores, -⟩ := @batch_refines_singles reference shortQueues "app" oneScore reference_lifetimes reference_lists reference_sortedSets
    oneScore_typed oneScore_solid (scoresOf [("m", .fin 2), ("n", .fin 3), ("m", .fin 4)]) _ rfl (some batchWriter) 5
  obtain ⟨hpushes, -⟩ := @batch_refines_singles reference shortQueues "app" oneScore reference_lifetimes reference_lists reference_sortedSets
    oneScore_typed oneScore_solid (pushesOf ["a", "b"]) _ rfl (some batchWriter) 5
  obtain ⟨-, hrefused⟩ := @batch_refines_singles reference shortQueues "app" oneScore reference_lifetimes reference_lists reference_sortedSets
    oneScore_typed oneScore_solid (pushesOf ["a", "b", "c"]) _ rfl (some batchWriter) 5
  obtain ⟨c, hc, hturn⟩ := hscores body t h
  cases hc
  obtain ⟨c, hc, hturn'⟩ := hpushes body' t' h'
  cases hc
  refine ⟨body, t, body', t', _, u, h, ht, hturn, h', ht', hturn', hu, ?_⟩
  rcases hrefused _ u hu (by rintro (⟨msg, hmsg⟩ | hmsg) <;> simp [error] at hmsg) with hsame | ⟨hno, -⟩
  · exact hsame
  · exact absurd ⟨batchWriter, rfl, by decide⟩ hno

end Redgw
