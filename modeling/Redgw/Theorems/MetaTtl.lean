import Redgw.Theorems.Lifetimes
import Redgw.Theorems.PlanRuns

/-! # The TTL of an answer

`meta.ttl` is found out by some endpoints and left at -1 by the others. -/

namespace Redgw
open Redis Prog Fallible

/-- The endpoints that find out the TTL of their key, or know it. -/
def Op.tellsTtl : Op → Bool
  | kv o => match o with
    | .getKv _ | .setKv .. | .incrKv .. | .touchKv .. | .setKvNx .. => true
    | _ => false
  | map o => match o with
    | .getMap _ | .getMapField .. | .setMap .. | .touchMap .. | .setMapField .. => true
    | _ => false
  | queue o => match o with
    | .batchPushQueue .. | .pushQueue .. | .touchQueue .. => true
    | _ => false
  | group o => match o with
    | .addGroup .. | .touchGroup .. => true
    | _ => false
  | rank o => match o with
    | .batchAddRank .. | .addRank .. | .incrRank .. | .touchRank .. => true
    | _ => false
  | event o => match o with
    | .touchEvent .. => true
    | _ => false
  | pubsub _ => false

/-- The answer tells the TTL of the entry: -1 if it does not expire, and only then. -/
structure TtlTrue (body : Json) (now : Nat) (e : Option Entry) : Prop where
  remaining : (body.field "meta").field "ttl" = .int (remaining now e)
  forever : (body.field "meta").field "ttl" = .int (-1) ↔ deadlineOf now e = none

/-! ### What commands do to a lifetime -/

/-- Every command reads the key, or leaves it there with its lifetime. -/
def Lasting (k : String) (cs : List (String × KeyCmd)) : Prop :=
  ∀ x ∈ cs, x.1 = k ∧ (x.2.reads = true ∨ x.2.leavesKey = true)

/-- One command may take the key away, but does not change its lifetime. -/
def Changing (k : String) (cs : List (String × KeyCmd)) : Prop :=
  ∃ c rest, cs = (k, c) :: rest ∧ (c.keepsTtl = true ∨ c = .del) ∧ ∀ x ∈ rest, x.1 = k ∧ x.2.reads = true

section Commands
variable {R : Server} {k : String} {now : Nat} {cs : List (String × KeyCmd)} {s : Store}

theorem lasting_deadline (hR : R.Lawful) (hW : R.Writes) (h : Lasting k cs) :
    deadlineOf now ((R.transact now cs s).2 k) = deadlineOf now (s k) := by
  induction cs generalizing s with
  | nil => rfl
  | cons x cs ih =>
    obtain ⟨k', c⟩ := x
    obtain ⟨rfl, hc⟩ := h _ List.mem_cons_self
    show deadlineOf now ((R.transact now cs (R.atKey k' c now s).2).2 k') = _
    rw [ih fun y hy => h y (List.mem_cons_of_mem _ hy), Server.atKey_self]
    rcases hc with hc | hc
    · rw [hR.reads c hc]
    · exact hW.leaves c now (s k') hc

theorem reads_keep (hR : R.Lawful) (h : ∀ x ∈ cs, x.1 = k ∧ x.2.reads = true) : (R.transact now cs s).2 k = s k := by
  induction cs generalizing s with
  | nil => rfl
  | cons x cs ih =>
    obtain ⟨k', c⟩ := x
    obtain ⟨rfl, hc⟩ := h _ List.mem_cons_self
    show (R.transact now cs (R.atKey k' c now s).2).2 k' = _
    rw [ih fun y hy => h y (List.mem_cons_of_mem _ hy), Server.atKey_self, hR.reads c hc]

/-- If the key is still there, its lifetime is what it was. -/
theorem changing_deadline (hR : R.Lawful) (hT : R.Lifetimes) (hW : R.Writes) (h : Changing k cs)
    (hlive : (live now ((R.transact now cs s).2 k)).isSome) :
    deadlineOf now ((R.transact now cs s).2 k) = deadlineOf now (s k) := by
  obtain ⟨c, rest, rfl, hc, hrest⟩ := h
  have hafter : (R.transact now ((k, c) :: rest) s).2 k = (R.onKey c now (s k)).2 := by
    show (R.transact now rest (R.atKey k c now s).2).2 k = _
    rw [reads_keep hR hrest, Server.atKey_self]
  rw [hafter] at hlive ⊢
  rcases hc with hc | rfl
  · rcases hW.keeps c now (s k) hc with hnone | hkept
    · rw [hnone] at hlive
      cases hlive
    · exact hkept
  · rw [hT.del] at hlive
    cases hlive

/-- A TTL that is asked last is that of what the commands have left. -/
theorem last_ttl (hT : R.Lifetimes) (cs : List (String × KeyCmd)) {vs : List Json}
    (h : replies (R.transact now (cs ++ [(k, .ttl)]) s).1 = .ok vs) :
    last vs = .int (remaining now ((R.transact now (cs ++ [(k, .ttl)]) s).2 k)) := by
  induction cs generalizing s vs with
  | nil =>
    have hreply : (R.atKey k .ttl now s).1 = .ok (.int (remaining now (s k))) := by rw [Server.atKey, hT.ttl]
    obtain ⟨v, ws, hv, hws, rfl⟩ := replies_cons h
    cases hws
    have hstore : (R.transact now ([] ++ [(k, .ttl)]) s).2 k = s k := by
      show (R.atKey k .ttl now s).2 k = s k
      rw [Server.atKey_self, hT.ttl]
    rw [hstore]
    have hv' : (R.atKey k .ttl now s).1 = .ok v := hv
    rw [hreply] at hv'
    cases hv'
    rfl
  | cons x cs ih =>
    obtain ⟨v, ws, hv, hws, rfl⟩ := replies_cons h
    have hrest := ih hws
    cases ws with
    | nil => cases hrest
    | cons w ws => exact hrest

end Commands

/-! ### What a plan makes of it -/

/-- How a plan comes by the TTL of its answer. -/
def Plan.Tells (k : String) (p : Plan) : Prop :=
  match p.ttl with
  | .default => Lasting k p.commands ∨ Changing k p.commands
  | .normalized | .raw => ∃ cs, p.commands = cs ++ [(k, .ttl)]
  | .computed n => ∃ value ttl, n = (if 0 < ttl then ttl else -1) ∧
    (p.commands = [(k, storing ttl value)] ∨
      p.commands = [(k, storingNx ttl value)] ∧ ∀ vs d, p.data vs = .ok d → (first vs).truthy = true)

def Filled.known : Filled → Bool
  | default => false
  | _ => true

/-- The TTL that was asked is that of the key, if the key is there. -/
theorem normalizedTtl_live {now : Nat} {e : Option Entry} (hlive : (live now e).isSome) :
    normalizedTtl (.int (remaining now e)) = .int (remaining now e) := by
  have hne : remaining now e ≠ -2 := by
    intro h
    rw [remaining_missing.mp h] at hlive
    cases hlive
  unfold normalizedTtl
  rw [if_neg]
  simpa [Json.isInt] using hne

theorem remaining_forever {now : Nat} {e : Option Entry} (hlive : (live now e).isSome) :
    remaining now e = -1 ↔ deadlineOf now e = none := by
  obtain ⟨⟨v, d⟩, hx⟩ := Option.isSome_iff_exists.mp hlive
  unfold remaining deadlineOf
  rw [hx]
  cases d with
  | none => exact ⟨fun _ => rfl, fun _ => rfl⟩
  | some d =>
    constructor
    · intro h
      dsimp only at h
      omega
    · intro h
      cases h

theorem remaining_deadlineFor (now : Nat) (ttl : Int) (v : Value) :
    remaining now (some ⟨v, deadlineFor now ttl⟩) = if 0 < ttl then ttl else -1 := by
  unfold remaining
  rw [live_deadlineFor]
  unfold deadlineFor
  by_cases httl : 0 < ttl
  · rw [if_pos httl, if_pos httl]
    dsimp only
    unfold ahead
    omega
  · rw [if_neg httl, if_neg httl]

theorem ttlTrue_iff {data ttl : Json} {ns key type : String} {now : Nat} {e : Option Entry} (hlive : (live now e).isSome) :
    TtlTrue (ok data ns key type ttl) now e ↔ ttl = .int (remaining now e) := by
  constructor
  · exact fun h => h.remaining
  · rintro rfl
    refine ⟨rfl, ?_⟩
    rw [← remaining_forever hlive]
    exact ⟨Json.int.inj, congrArg Json.int⟩

section Plans
variable {R : Server} {st : Settings} {ns k : String} {now : Nat} {s t : Store} {body : Json}

/-- An answer with a TTL of its own is true, the others are true of keys that did not expire. -/
theorem plan_ttl_iff (hR : R.Lawful) (hT : R.Lifetimes) (hW : R.Writes) {p : Plan} (hp : p.Tells k)
    (hrun : Alone R now (p.program ns) s = (.ok body, t)) (hlive : (live now (t k)).isSome) :
    TtlTrue body now (t k) ↔ p.ttl.known = true ∨ deadlineOf now (s k) = none := by
  obtain ⟨vs, d, hreplies, rfl, hd, rfl⟩ := alone_program hrun
  rw [ttlTrue_iff hlive]
  have hasked : (∃ cs, p.commands = cs ++ [(k, .ttl)]) → last vs = .int (remaining now ((R.transact now p.commands s).2 k)) := by
    rintro ⟨cs, hcs⟩
    rw [hcs] at hreplies ⊢
    exact last_ttl hT cs hreplies
  unfold Plan.Tells at hp
  cases httl : p.ttl with
  | default =>
    rw [httl] at hp
    have hkept : deadlineOf now ((R.transact now p.commands s).2 k) = deadlineOf now (s k) := by
      rcases hp with hlasting | hchanging
      · exact lasting_deadline hR hW hlasting
      · exact changing_deadline hR hT hW hchanging hlive
    rw [← hkept, ← remaining_forever hlive]
    constructor
    · exact fun h => Or.inr (Json.int.inj h).symm
    · rintro (h | h)
      · cases h
      · exact congrArg Json.int h.symm
  | normalized =>
    rw [httl] at hp
    refine ⟨fun _ => Or.inl rfl, fun _ => ?_⟩
    rw [Filled.fill, hasked hp]
    exact normalizedTtl_live hlive
  | raw =>
    rw [httl] at hp
    exact ⟨fun _ => Or.inl rfl, fun _ => hasked hp⟩
  | computed n =>
    rw [httl] at hp
    refine ⟨fun _ => Or.inl rfl, fun _ => ?_⟩
    obtain ⟨value, ttl, rfl, hcs⟩ := hp
    have hstored : (R.transact now p.commands s).2 k = some ⟨.str value, deadlineFor now ttl⟩ := by
      rcases hcs with hcs | ⟨hcs, hdone⟩
      · rw [hcs] at hreplies ⊢
        obtain ⟨v, ws, hv, -, -⟩ := replies_cons hreplies
        show (R.atKey k (storing ttl value) now s).2 k = _
        rw [Server.atKey_self]
        exact storing_stores hW hv
      · rw [hcs] at hreplies ⊢
        obtain ⟨v, ws, hv, -, rfl⟩ := replies_cons hreplies
        show (R.atKey k (storingNx ttl value) now s).2 k = _
        rw [Server.atKey_self]
        exact storingNx_stores hW hv (hdone _ d hd)
    rw [hstored, remaining_deadlineFor]
    rfl

end Plans

/-! ### Every request -/

section Requests
variable {st : Settings} {ns k : String}

/-- How the plan comes by its TTL, and that the table is right about it. -/
def Plan.Telling (k : String) (known : Bool) (p : Plan) : Prop := p.Tells k ∧ p.ttl.known = known

theorem telling_asked {p : Plan} (cs : List (String × KeyCmd)) (hcs : p.commands = cs ++ [(k, .ttl)])
    (httl : p.ttl = .normalized ∨ p.ttl = .raw) : p.Telling k true := by
  unfold Plan.Telling Plan.Tells
  rcases httl with httl | httl
  · rw [httl]
    exact ⟨⟨cs, hcs⟩, rfl⟩
  · rw [httl]
    exact ⟨⟨cs, hcs⟩, rfl⟩

theorem telling_default {p : Plan} (hcs : Lasting k p.commands ∨ Changing k p.commands) (httl : p.ttl = .default) :
    p.Telling k false := by
  unfold Plan.Telling Plan.Tells
  rw [httl]
  exact ⟨hcs, rfl⟩

theorem telling_one {p : Plan} {c : KeyCmd} (hcs : p.commands = [(k, c)]) (hc : c.keepsTtl = true ∨ c = .del)
    (httl : p.ttl = .default) : p.Telling k false :=
  telling_default (Or.inr ⟨c, [], hcs, hc, fun x hx => by cases hx⟩) httl

theorem telling_delete {typePrefix key typeName : String} (hk : buildKey st.engine ns typePrefix key = .ok k) :
    Planned.All (Plan.Telling k false) (some ("write", deletePlan st ns typePrefix key typeName)) :=
  all_keyed hk (telling_one rfl (Or.inr rfl) rfl)

theorem telling_touch {typePrefix key typeName : String} {body : TtlSetRequest}
    (hk : buildKey st.engine ns typePrefix key = .ok k) :
    Planned.All (Plan.Telling k true) (some ("write", touchPlan st ns typePrefix key typeName body)) :=
  all_keyed hk (telling_asked [_, _] rfl (Or.inr rfl))

theorem KvOp.telling (o : KvOp) (ha : (Op.kv o).Addresses st ns k) :
    (o.plan st ns).All (Plan.Telling k (Op.kv o).tellsTtl) := by
  obtain ⟨_, hp, hargs, hk⟩ := ha.built
  cases hp
  cases o with
  | batchGetKv body => exact absurd rfl hargs
  | batchSetKv body => exact absurd rfl hargs
  | getKv key => exact all_keyed (hk key rfl) (telling_asked [_] rfl (Or.inl rfl))
  | setKv key body => exact all_checked (hk key rfl) fun _ => ⟨⟨body.value, resolveTtl st body.ttl, rfl, Or.inl rfl⟩, rfl⟩
  | deleteKv key => exact telling_delete (hk key rfl)
  | existsKv key => exact all_keyed (hk key rfl) (telling_one rfl (Or.inl rfl) rfl)
  | incrKv key body => exact all_keyed (hk key rfl) (telling_asked [_] rfl (Or.inl rfl))
  | touchKv key body => exact telling_touch (hk key rfl)
  | setKvNx key body =>
    refine all_keyed (hk key rfl) ⟨⟨body.value, resolveTtl st body.ttl, rfl, Or.inr ⟨rfl, fun vs d hd => ?_⟩⟩, rfl⟩
    dsimp only at hd
    cases hdone : (first vs).truthy with
    | true => rfl
    | false =>
      rw [hdone] at hd
      cases hd

theorem MapOp.telling (o : MapOp) (ha : (Op.map o).Addresses st ns k) :
    (o.plan st ns).All (Plan.Telling k (Op.map o).tellsTtl) := by
  obtain ⟨_, hp, hargs, hk⟩ := ha.built
  cases hp
  cases o with
  | batchGetMap body => exact absurd rfl hargs
  | batchSetMap body => exact absurd rfl hargs
  | getMap key => exact all_keyed (hk key rfl) (telling_asked [_] rfl (Or.inl rfl))
  | getMapField key field => exact all_keyed (hk key rfl) (telling_asked [_] rfl (Or.inl rfl))
  | setMap key body => exact all_checked (hk key rfl) fun _ => telling_asked [_, _] rfl (Or.inr rfl)
  | touchMap key body => exact telling_touch (hk key rfl)
  | setMapField key field body =>
    refine all_checked (hk key rfl) fun _ => telling_asked [_, _] rfl ?_
    dsimp only
    split
    · exact Or.inr rfl
    · exact Or.inl rfl
  | deleteMap key => exact telling_delete (hk key rfl)
  | deleteMapField key field => exact all_keyed (hk key rfl) (telling_one rfl (Or.inl rfl) rfl)

/-- The requests that push have no plan. -/
theorem QueueOp.telling (o : QueueOp) (ha : (Op.queue o).Addresses st ns k) :
    (o.plan st ns).All (Plan.Telling k (Op.queue o).tellsTtl) := by
  obtain ⟨_, hp, hargs, hk⟩ := ha.built
  cases hp
  cases o with
  | batchPushQueue key => exact Planned.all_none
  | pushQueue key => exact Planned.all_none
  | popQueue key direction => exact all_keyed (hk key rfl) (telling_one rfl (Or.inl (by cases direction <;> rfl)) rfl)
  | rangeQueue key => exact all_keyed (hk key rfl) (telling_one rfl (Or.inl rfl) rfl)
  | lenQueue key => exact all_keyed (hk key rfl) (telling_one rfl (Or.inl rfl) rfl)
  | deleteQueue key => exact telling_delete (hk key rfl)
  | touchQueue key => exact telling_touch (hk key rfl)
  | trimQueue key body =>
    refine all_keyed (hk key rfl) (telling_default (Or.inr ⟨_, [(k, .llen)], rfl, Or.inl rfl, fun x hx => ?_⟩) rfl)
    rw [List.mem_singleton.mp hx]
    exact ⟨rfl, rfl⟩

theorem GroupOp.telling (o : GroupOp) (ha : (Op.group o).Addresses st ns k) :
    (o.plan st ns).All (Plan.Telling k (Op.group o).tellsTtl) := by
  obtain ⟨_, hp, hargs, hk⟩ := ha.built
  cases hp
  cases o with
  | batchGetGroup body => exact absurd rfl hargs
  | batchAddGroup body => exact absurd rfl hargs
  | interGroups body => exact absurd rfl hargs
  | unionGroups body => exact absurd rfl hargs
  | diffGroups body => exact absurd rfl hargs
  | addGroup key => exact all_checked (hk key rfl) fun _ => telling_asked [_, _] rfl (Or.inl rfl)
  | deleteGroup key => exact telling_delete (hk key rfl)
  | touchGroup key => exact telling_touch (hk key rfl)
  | _ => exact all_keyed (hk _ rfl) (telling_one rfl (Or.inl rfl) rfl)

theorem RankOp.telling (o : RankOp) (ha : (Op.rank o).Addresses st ns k) :
    (o.plan st ns).All (Plan.Telling k (Op.rank o).tellsTtl) := by
  obtain ⟨_, hp, hargs, hk⟩ := ha.built
  cases hp
  cases o with
  | batchGetRank body => exact absurd rfl hargs
  | batchAddRank key => exact all_checked (hk key rfl) fun _ => telling_asked [_, _] rfl (Or.inl rfl)
  | addRank key body =>
    refine Planned.all_some (Yields.bind fun _ _ => ?_)
    cases body.score.isfinite
    · exact yields_throw
    · exact yields_keyed (hk key rfl) (telling_asked [_, _] rfl (Or.inl rfl))
  | incrRank key body =>
    refine Planned.all_some (Yields.bind fun _ _ => ?_)
    cases body.delta.isfinite
    · exact yields_throw
    · exact yields_keyed (hk key rfl) (telling_asked [_] rfl (Or.inl rfl))
  | deleteRank key => exact telling_delete (hk key rfl)
  | touchRank key => exact telling_touch (hk key rfl)
  | _ => exact all_keyed (hk _ rfl) (telling_one rfl (Or.inl rfl) rfl)

theorem EventOp.telling (o : EventOp) (ha : (Op.event o).Addresses st ns k) :
    (o.plan st ns).All (Plan.Telling k (Op.event o).tellsTtl) := by
  obtain ⟨_, hp, hargs, hk⟩ := ha.built
  cases hp
  cases o with
  | batchPublishEvent key body =>
    refine all_checked (hk key rfl) fun _ => telling_default (Or.inl fun x hx => ?_) rfl
    obtain ⟨evt, -, rfl⟩ := List.mem_map.mp hx
    exact ⟨rfl, Or.inr rfl⟩
  | publishEvent key => exact all_checked (hk key rfl) fun _ => telling_one rfl (Or.inl rfl) rfl
  | readEvents key lastId count =>
    refine Planned.all_some (Yields.bind fun b hb => ?_)
    rw [hk key rfl] at hb
    cases hb
    cases streamIdRe lastId
    · exact yields_throw
    · exact yields_pure (P := Plan.Telling k _) (telling_one rfl (Or.inl rfl) rfl)
  | ackEvents key => exact all_checked (hk key rfl) fun _ => telling_one rfl (Or.inl rfl) rfl
  | deleteEvent key => exact telling_delete (hk key rfl)
  | touchEvent key => exact telling_touch (hk key rfl)
  | streamInfo key => exact Planned.all_none
  | _ => exact all_keyed (hk _ rfl) (telling_one rfl (Or.inl rfl) rfl)

theorem Op.telling (o : Op) (ha : o.Addresses st ns k) : (o.plan st ns).All (Plan.Telling k o.tellsTtl) := by
  cases o with
  | kv o => exact o.telling ha
  | map o => exact o.telling ha
  | queue o => exact o.telling ha
  | group o => exact o.telling ha
  | rank o => exact o.telling ha
  | event o => exact o.telling ha
  | pubsub o => exact Planned.all_none

variable {R : Server} {client : ClientInfo} {now : Nat} {s t : Store} {body : Json}

theorem push_ttl (hT : R.Lifetimes) {p : Push} (hk : buildKey st.engine ns queuePrefix p.key = .ok k)
    (hrun : Alone R now (p.program st ns) s = (.ok body, t)) (hlive : (live now (t k)).isSome) : TtlTrue body now (t k) := by
  obtain ⟨k', result, u, vs, -, hk', -, -, hreplies, rfl, rfl⟩ := alone_push hrun
  rw [hk] at hk'
  cases hk'
  rw [ttlTrue_iff hlive, last_ttl hT [lifetime k p.ttl] hreplies]
  exact normalizedTtl_live hlive

theorem alone_streamInfo (hR : R.Lawful) {key : String} (hk : buildKey st.engine ns eventPrefix key = .ok k)
    (hrun : Alone R now (streamInfo st client ns key) s = (.ok body, t)) :
    t k = s k ∧ ∃ data, body = ok data ns key "stream" := by
  obtain ⟨_, u, hguard, hkeyed⟩ := alone_bind_ok hrun
  obtain ⟨-, rfl⟩ := alone_guard_ok hguard
  obtain ⟨k', v, hbuilt, hread⟩ := alone_bind_ok hkeyed
  obtain ⟨hk', rfl⟩ := alone_ofExcept_ok hbuilt
  rw [hk] at hk'
  cases hk'
  obtain ⟨info, w, hinfo, hrest⟩ := alone_bind_ok hread
  obtain ⟨groups, x, hgroups, hbody⟩ := alone_bind_ok hrest
  cases hbody
  have hfirst : w k = v k := alone_except_reads hR rfl (fun msg => calls_raise _ _) hinfo
  have hsecond : t k = w k := alone_except_reads hR rfl (fun msg => calls_pure _ _) hgroups
  exact ⟨hsecond.trans hfirst, _, rfl⟩

/-- The requests without a plan that address one key. -/
theorem unplanned_ttl (hR : R.Lawful) (hT : R.Lifetimes) {o : Op} (ha : o.Addresses st ns k) (hnone : o.plan st ns = none)
    (hrun : Alone R now (o.handle st client ns) s = (.ok body, t)) (hlive : (live now (t k)).isSome) :
    TtlTrue body now (t k) ↔ o.tellsTtl = true ∨ deadlineOf now (s k) = none := by
  obtain ⟨typePrefix, hp, hargs, hk⟩ := ha.built
  have hpush : ∀ (o : QueueOp) (p : Push), o.push st = some p → buildKey st.engine ns queuePrefix p.key = .ok k →
      Alone R now (o.handle st client ns) s = (.ok body, t) → TtlTrue body now (t k) := by
    intro o p hop hkey hrun
    rw [QueueOp.pushes hop] at hrun
    obtain ⟨_, u, hguard, hprogram⟩ := alone_bind_ok hrun
    obtain ⟨-, rfl⟩ := alone_guard_ok hguard
    exact push_ttl hT hkey hprogram hlive
  cases o with
  | kv o => cases o with
    | batchGetKv body => exact absurd rfl hargs
    | _ => cases hnone
  | map o => cases o <;> cases hnone
  | queue o =>
    cases hp
    cases o with
    | pushQueue key b => exact ⟨fun _ => Or.inl rfl, fun _ => hpush (.pushQueue key b) _ rfl (hk key rfl) hrun⟩
    | batchPushQueue key b => exact ⟨fun _ => Or.inl rfl, fun _ => hpush (.batchPushQueue key b) _ rfl (hk key rfl) hrun⟩
    | _ => cases hnone
  | group o => cases o with
    | interGroups body => exact absurd rfl hargs
    | unionGroups body => exact absurd rfl hargs
    | diffGroups body => exact absurd rfl hargs
    | _ => cases hnone
  | rank o => cases o <;> cases hnone
  | event o =>
    cases hp
    cases o with
    | streamInfo key =>
      obtain ⟨hsame, data, rfl⟩ := alone_streamInfo hR (hk key rfl) hrun
      rw [ttlTrue_iff hlive, ← hsame, ← remaining_forever hlive]
      constructor
      · exact fun h => Or.inr (Json.int.inj h).symm
      · rintro (h | h)
        · cases h
        · exact congrArg Json.int h.symm
    | _ => cases hnone
  | pubsub o => cases hp

/-- The TTL that a request is answered with is true if and only if its endpoint finds out the TTL, or the
    key did not expire before. -/
theorem meta_ttl_iff (hR : R.Lawful) (hT : R.Lifetimes) (hW : R.Writes) {client : Option ClientInfo} {o : Op}
    (ha : o.Addresses st ns k) (hrun : Alone R now (endpoint st client ns o) s = (.ok body, t))
    (hlive : (live now (t k)).isSome) : TtlTrue body now (t k) ↔ o.tellsTtl = true ∨ deadlineOf now (s k) = none := by
  obtain ⟨c, rfl, -, hrun⟩ := alone_endpoint hrun
  by_cases hnone : o.plan st ns = none
  · exact unplanned_ttl hR hT ha hnone hrun hlive
  · obtain ⟨operation, p, hp, -, hprogram⟩ := alone_planned o.follows hnone hrun
    obtain ⟨htells, hknown⟩ := o.telling ha operation (.ok p) hp p rfl
    rw [plan_ttl_iff hR hT hW htells hprogram hlive, hknown]

end Requests

def queueReader : ClientInfo := ⟨"app", "", [("app", ["read"])]⟩

def readQueue : Op := .queue (.rangeQueue "a" 0 (-1))

/-- A list that expires after a minute. -/
def expiringList : Store := Store.empty.set "app:q:a" (some ⟨.list ["x"], some 60000⟩)

def queueAnswer : Json := ok (.obj [("values", .arr [.str "x"]), ("count", .int 1)]) "app" "a" "list"

theorem readQueue_run : Alone reference 0 (endpoint {} (some queueReader) "app" readQueue) expiringList =
    (.ok queueAnswer, expiringList.set "app:q:a" (some ⟨.list ["x"], some 60000⟩)) := rfl

theorem readQueue_addresses : readQueue.Addresses {} "app" "app:q:a" := ⟨queuePrefix, "a", rfl, rfl, rfl⟩

theorem meta_ttl_iff_queue :
    TtlTrue queueAnswer 0 (expiringList.set "app:q:a" (some ⟨.list ["x"], some 60000⟩) "app:q:a") ↔
      readQueue.tellsTtl = true ∨ deadlineOf 0 (expiringList "app:q:a") = none :=
  meta_ttl_iff reference_lawful reference_lifetimes reference_writes readQueue_addresses readQueue_run rfl

/-- The elements of a list that expires come with the TTL of a key that does not. -/
theorem queue_ttl_false : ∃ body t, Alone reference 0 (endpoint {} (some queueReader) "app" readQueue) expiringList =
    (.ok body, t) ∧ (live 0 (t "app:q:a")).isSome ∧ ¬TtlTrue body 0 (t "app:q:a") := by
  refine ⟨_, _, readQueue_run, rfl, fun htrue => ?_⟩
  cases htrue.remaining

end Redgw
