import Redgw.System
import Redgw.Theorems.Executions
import Redgw.Theorems.Lifetimes

/-! # The TTL that is reported

TTL answers -2 for a key that is not there. No request of the data plane passes this on as the TTL of a
key; two requests of the admin plane do, if the key goes between their commands. -/

namespace Redgw
open Redis Prog Fallible

/-- The plan does not pass on the code of a missing key. -/
def Plan.Guarded (p : Plan) : Prop :=
  match p.ttl with
  | .default | .normalized => True
  | .computed n => n ≠ -2
  | .raw => (∀ vs d, p.data vs = .ok d → last vs ≠ .int (-2)) ∨
    p.sending = .transaction ∧ ∃ k fields ttl, (KeyCmd.hset fields).Adds ∧
      p.commands = [(k, .hset fields), lifetime k ttl, (k, .ttl)]

section Plans
variable {st : Settings} {ns : String}

theorem guarded_delete (typePrefix key typeName : String) :
    Yields Plan.Guarded (deletePlan st ns typePrefix key typeName) := Yields.bind fun _ _ => yields_pure trivial

theorem guarded_touch (typePrefix key typeName : String) (body : TtlSetRequest) :
    Yields Plan.Guarded (touchPlan st ns typePrefix key typeName body) := by
  refine Yields.bind fun k _ => yields_pure (Or.inl fun vs d hd hlast => ?_)
  have hmissing : (last vs).isInt (-2) = true := by
    rw [hlast]
    rfl
  dsimp only at hd
  rw [hmissing, Bool.or_true, if_pos rfl] at hd
  cases hd

theorem computed_ne (ttl : Int) : (if 0 < ttl then ttl else -1) ≠ -2 := by
  split <;> omega

theorem guarded_one {operation : String} {β : Type} {x : Except Exn β} {q : β → Plan} (h : ∀ b, (q b).Guarded) :
    Planned.All Plan.Guarded (some (operation, x >>= fun b => pure (q b))) :=
  Planned.all_some (Yields.bind fun b _ => yields_pure (h b))

theorem guarded_checked {operation : String} {β γ : Type} {y : Except Exn γ} {x : γ → Except Exn β} {q : γ → β → Plan}
    (h : ∀ c b, (q c b).Guarded) :
    Planned.All Plan.Guarded (some (operation, y >>= fun c => x c >>= fun b => pure (q c b))) :=
  Planned.all_some (Yields.bind fun c _ => Yields.bind fun b _ => yields_pure (h c b))

theorem KvOp.guarded (o : KvOp) : (o.plan st ns).All Plan.Guarded := by
  cases o with
  | batchGetKv body => exact Planned.all_none
  | batchSetKv body => exact guarded_checked fun _ _ => trivial
  | getKv key => exact guarded_one fun _ => trivial
  | setKv key body => exact guarded_checked fun _ _ => computed_ne _
  | deleteKv key => exact Planned.all_some (guarded_delete _ _ _)
  | existsKv key => exact guarded_one fun _ => trivial
  | incrKv key body => exact guarded_one fun _ => trivial
  | touchKv key body => exact Planned.all_some (guarded_touch _ _ _ _)
  | setKvNx key body => exact guarded_one fun _ => computed_ne _

theorem MapOp.guarded (o : MapOp) (hvalid : o.valid = true) : (o.plan st ns).All Plan.Guarded := by
  cases o with
  | batchGetMap body => exact guarded_one fun _ => trivial
  | batchSetMap body => exact guarded_checked fun _ _ => trivial
  | getMap key => exact guarded_one fun _ => trivial
  | getMapField key field => exact guarded_one fun _ => trivial
  | setMap key body =>
    refine guarded_checked fun _ k => Or.inr ⟨rfl, k, body.fields.items, resolveTtl st body.ttl, ⟨?_, body.fields.nodup⟩, rfl⟩
    have hvalid' : body.valid = true := hvalid
    simp only [MapSetRequest.valid, Bool.and_eq_true, Dict.length] at hvalid'
    exact List.ne_nil_of_length_pos (of_decide_eq_true hvalid'.1.1)
  | touchMap key body => exact Planned.all_some (guarded_touch _ _ _ _)
  | setMapField key field body =>
    refine guarded_checked fun _ k => ?_
    unfold Plan.Guarded
    dsimp only
    by_cases httl : 0 < resolveTtl st body.ttl
    · rw [if_pos httl, if_pos httl]
      exact Or.inr ⟨rfl, k, [(field, body.value)], resolveTtl st body.ttl, ⟨List.cons_ne_nil _ _, List.nodup_singleton _⟩, rfl⟩
    · rw [if_neg httl]
      trivial
  | deleteMap key => exact Planned.all_some (guarded_delete _ _ _)
  | deleteMapField key field => exact guarded_one fun _ => trivial

theorem QueueOp.guarded (o : QueueOp) : (o.plan st ns).All Plan.Guarded := by
  cases o with
  | batchPushQueue key body => exact Planned.all_none
  | pushQueue key body => exact Planned.all_none
  | deleteQueue key => exact Planned.all_some (guarded_delete _ _ _)
  | touchQueue key body => exact Planned.all_some (guarded_touch _ _ _ _)
  | _ => exact guarded_one fun _ => trivial

theorem GroupOp.guarded (o : GroupOp) : (o.plan st ns).All Plan.Guarded := by
  cases o with
  | batchAddGroup body => exact guarded_checked fun _ _ => trivial
  | addGroup key body => exact guarded_checked fun _ _ => trivial
  | deleteGroup key => exact Planned.all_some (guarded_delete _ _ _)
  | touchGroup key body => exact Planned.all_some (guarded_touch _ _ _ _)
  | interGroups body => exact Planned.all_none
  | unionGroups body => exact Planned.all_none
  | diffGroups body => exact Planned.all_none
  | _ => exact guarded_one fun _ => trivial

theorem RankOp.guarded (o : RankOp) : (o.plan st ns).All Plan.Guarded := by
  cases o with
  | batchAddRank key body => exact guarded_checked fun _ _ => trivial
  | addRank key body =>
    refine Planned.all_some (Yields.bind fun _ _ => ?_)
    split
    · exact Yields.bind fun _ _ => Yields.bind fun _ _ => yields_pure trivial
    · exact Yields.bind fun _ _ => yields_pure trivial
  | incrRank key body =>
    refine Planned.all_some (Yields.bind fun _ _ => ?_)
    split
    · exact Yields.bind fun _ _ => Yields.bind fun _ _ => yields_pure trivial
    · exact Yields.bind fun _ _ => yields_pure trivial
  | deleteRank key => exact Planned.all_some (guarded_delete _ _ _)
  | touchRank key body => exact Planned.all_some (guarded_touch _ _ _ _)
  | _ => exact guarded_one fun _ => trivial

theorem EventOp.guarded (o : EventOp) : (o.plan st ns).All Plan.Guarded := by
  cases o with
  | batchPublishEvent key body => exact guarded_checked fun _ _ => trivial
  | publishEvent key body => exact guarded_checked fun _ _ => trivial
  | readEvents key lastId count =>
    refine Planned.all_some (Yields.bind fun _ _ => ?_)
    cases streamIdRe lastId
    · exact yields_throw
    · exact yields_pure (P := Plan.Guarded) trivial
  | ackEvents key group body => exact guarded_checked fun _ _ => trivial
  | deleteEvent key => exact Planned.all_some (guarded_delete _ _ _)
  | touchEvent key body => exact Planned.all_some (guarded_touch _ _ _ _)
  | streamInfo key => exact Planned.all_none
  | _ => exact guarded_one fun _ => trivial

/-- No plan passes on the code of a missing key. -/
theorem Op.guarded (o : Op) (hvalid : o.valid = true) : (o.plan st ns).All Plan.Guarded := by
  cases o with
  | kv o => exact o.guarded
  | map o => exact o.guarded hvalid
  | queue o => exact o.guarded
  | group o => exact o.guarded
  | rank o => exact o.guarded
  | event o => exact o.guarded
  | pubsub o => exact Planned.all_none

end Plans

/-! ### The data plane -/

/-- Writes that set a lifetime in one transaction are answered with the TTL of a key that is there. -/
def TtlKnown : (c : Call) → c.Ret → Prop
  | .redis (.multi cs), rs => ∀ k fields ttl, (KeyCmd.hset fields).Adds →
    cs = [(k, .hset fields), lifetime k ttl, (k, .ttl)] → ∀ vs, replies rs = .ok vs → last vs ≠ .int (-2)
  | _, _ => True

/-- The answer does not have the code of a missing key as its TTL. -/
def TtlSafe (o : Except Exn Json) : Prop := ∀ body, o = .ok body → (body.field "meta").field "ttl" ≠ .int (-2)

theorem ttlKnown_exec {R : Server} (hT : R.Lifetimes) (hW : R.Writes) (c : Call) (now : Nat) (s : Store) :
    TtlKnown c (execStore R c now s).1 := by
  rcases c with (_ | _ | _ | _ | _ | cs) | _ | _
  case redis.multi =>
    rintro k fields ttl hadds rfl vs hvs
    obtain ⟨v, hv, hlive⟩ := transact_lifetime hT hvs
    obtain ⟨x, hx, -⟩ := hW.adds (.hset fields) now (s k) v hadds hv
    rw [(hlive x hx).2]
    intro hmissing
    have hnone := remaining_missing.mp (Json.int.inj hmissing)
    rw [live_deadlineFor] at hnone
    cases hnone
  all_goals exact trivial

section Ends
variable {α : Type} {st : Settings} {client : ClientInfo} {ns : String}

theorem safe_bind {p : Handler α} {f : α → Handler Json} (h : ∀ a, (f a).Ends TtlKnown TtlSafe) :
    (p.bind f).Ends TtlKnown TtlSafe := by
  refine Ends.bind (Ends.any (fun _ => trivial) p : p.Ends TtlKnown fun _ => True) (fun a _ => h a) fun e _ body hbody => ?_
  cases hbody

theorem safe_raise (e : Exn) : (Prog.raise e : Handler Json).Ends TtlKnown TtlSafe := fun _ h => by cases h

theorem safe_ok {data ttl : Json} {key type : String} (httl : ttl ≠ .int (-2)) :
    (Prog.pure (ok data ns key type ttl) : Handler Json).Ends TtlKnown TtlSafe := by
  intro body hbody
  cases hbody
  exact httl

theorem normalizedTtl_ne (v : Json) : normalizedTtl v ≠ .int (-2) := by
  unfold normalizedTtl
  split
  · simp
  · rename_i h
    rintro rfl
    exact h rfl

theorem default_ne : (.int (-1) : Json) ≠ .int (-2) := by simp

theorem safe_answer {p : Plan} {r : Except String (List Json)}
    (h : ∀ vs d, r = .ok vs → p.data vs = .ok d → p.ttl.fill vs ≠ .int (-2)) :
    (Prog.ofExcept (p.answer ns r) : Handler Json).Ends TtlKnown TtlSafe := by
  refine Ends.ofExcept fun body hbody => ?_
  cases r with
  | error msg => cases hbody
  | ok vs =>
    cases hd : p.data vs with
    | error e =>
      rw [Plan.answer, hd] at hbody
      cases hbody
    | ok d =>
      rw [Plan.answer, hd] at hbody
      cases hbody
      exact h vs d rfl hd

/-- A guarded plan ends safely. -/
theorem safe_program {p : Plan} (hp : p.Guarded) : (p.program ns).Ends TtlKnown TtlSafe := by
  unfold Plan.Guarded at hp
  cases httl : p.ttl with
  | default =>
    refine safe_bind fun r => safe_answer fun vs d _ _ => ?_
    rw [httl]
    exact default_ne
  | normalized =>
    refine safe_bind fun r => safe_answer fun vs d _ _ => ?_
    rw [httl]
    exact normalizedTtl_ne _
  | computed n =>
    rw [httl] at hp
    refine safe_bind fun r => safe_answer fun vs d _ _ => ?_
    rw [httl]
    exact fun h => hp (Json.int.inj h)
  | raw =>
    rw [httl] at hp
    rcases hp with hdata | ⟨hsend, k, fields, ttl, hadds, hcs⟩
    · refine safe_bind fun r => safe_answer fun vs d _ hd => ?_
      rw [httl]
      exact hdata vs d hd
    · have hsent : p.send.Ends TtlKnown fun o => ∀ r, o = .ok r → ∀ vs, r = .ok vs → last vs ≠ .int (-2) := by
        unfold Plan.send
        rw [hsend]
        intro rs hrs r hr vs hvs
        cases hr
        exact hrs k fields ttl hadds hcs vs hvs
      refine Ends.bind hsent (fun r hr => safe_answer fun vs d hvs _ => ?_) fun e _ body hbody => by cases hbody
      rw [httl]
      exact hr r rfl vs hvs

theorem safe_planned {handler : Handler Json} {planned : Planned} (h : Follows client ns handler planned)
    (hsafe : planned.All Plan.Guarded) (hsome : planned ≠ none) : handler.Ends TtlKnown TtlSafe := by
  obtain ⟨⟨operation, x⟩, hx⟩ := Option.ne_none_iff_exists'.mp hsome
  rw [h operation x hx]
  refine safe_bind fun _ => ?_
  cases hp : x with
  | error e => exact safe_raise e
  | ok p => exact safe_program (hsafe operation x hx p hp)

/-- The requests without a plan answer -1, or the normalized TTL. -/
theorem safe_unplanned (o : Op) (hnone : o.plan st ns = none) : (o.handle st client ns).Ends TtlKnown TtlSafe := by
  cases o with
  | kv o =>
    cases o with
    | batchGetKv body => exact safe_bind fun _ => safe_bind fun _ => safe_bind fun _ => safe_ok default_ne
    | _ => cases hnone
  | map o => cases o <;> cases hnone
  | queue o =>
    cases o with
    | batchPushQueue key body =>
      refine safe_bind fun _ => safe_bind fun _ => safe_bind fun k => safe_bind fun result => ?_
      cases result.isInt (-1)
      · exact safe_bind fun _ => safe_ok (normalizedTtl_ne _)
      · exact safe_raise _
    | pushQueue key body =>
      refine safe_bind fun _ => safe_bind fun _ => safe_bind fun k => safe_bind fun result => ?_
      cases result.isInt (-1)
      · exact safe_bind fun _ => safe_ok (normalizedTtl_ne _)
      · exact safe_raise _
    | _ => cases hnone
  | group o =>
    cases o with
    | interGroups body => exact safe_bind fun _ => safe_bind fun _ => safe_bind fun _ => safe_ok default_ne
    | unionGroups body => exact safe_bind fun _ => safe_bind fun _ => safe_bind fun _ => safe_ok default_ne
    | diffGroups body => exact safe_bind fun _ => safe_bind fun _ => safe_bind fun _ => safe_ok default_ne
    | _ => cases hnone
  | rank o => cases o <;> cases hnone
  | event o =>
    cases o with
    | streamInfo key => exact safe_bind fun _ => safe_bind fun _ => safe_bind fun _ => safe_bind fun _ => safe_ok default_ne
    | _ => cases hnone
  | pubsub o =>
    cases o with
    | publishMessage channel body =>
      exact safe_bind fun _ => safe_bind fun _ => safe_bind fun _ => safe_bind fun _ => safe_bind fun _ => safe_ok default_ne

/-- No request of the data plane reports the code of a missing key. -/
theorem safe_endpoint (client : Option ClientInfo) (o : Op) : (endpoint st client ns o).Ends TtlKnown TtlSafe := by
  refine safe_bind fun c => ?_
  cases hvalid : o.valid with
  | false => exact safe_raise _
  | true =>
    show (o.handle st c ns).Ends TtlKnown TtlSafe
    by_cases hnone : o.plan st ns = none
    · exact safe_unplanned o hnone
    · exact safe_planned o.follows (o.guarded hvalid) hnone

end Ends

/-! ### The admin plane -/

/-- Redis refuses the command. -/
def Refused (R : Server) (x : CallStep) : Prop :=
  ∃ k c msg, x.call = .redis (.at k c) ∧ (R.onKey c x.env (x.before k)).1 = .error msg

/-- TTL finds its key, if no command is refused. -/
def TtlFound (R : Server) (steps : List CallStep) : Prop :=
  (∃ x ∈ steps, Refused R x) ∨ ∀ x ∈ steps, ∀ k, x.call = .redis (.at k .ttl) → (live x.env (x.before k)).isSome

/-- The answer of `key_info` or `set_ttl` does not have the code of a missing key as its TTL. -/
def AdminTtlSafe (o : Except Exn Json) : Prop := ∀ body, o = .ok body → (body.field "data").field "ttl" ≠ .int (-2)

section Admin
variable {R : Server} {st : Settings} {client : ClientInfo}

theorem not_refused {k : String} {c : KeyCmd} {now : Nat} {s : Store} {v : Json} (h : (R.onKey c now (s k)).1 = .ok v) :
    ¬Refused R ⟨.redis (.at k c), now, s⟩ := by
  rintro ⟨k', c', msg, hcall, hmsg⟩
  cases hcall
  rw [h] at hmsg
  cases hmsg

theorem found_refused {steps : List CallStep} {x : CallStep} (hx : x ∈ steps) (h : Refused R x) (e : Exn) :
    AdminTtlSafe (.error e) ↔ TtlFound R steps := ⟨fun _ => Or.inl ⟨x, hx, h⟩, fun _ _ h => by cases h⟩

theorem found_silent {steps : List CallStep} (h : ∀ x ∈ steps, ∀ k, x.call ≠ .redis (.at k .ttl)) (e : Exn) :
    AdminTtlSafe (.error e) ↔ TtlFound R steps :=
  ⟨fun _ => Or.inr fun x hx k hc => absurd hc (h x hx k), fun _ _ h => by cases h⟩

/-- An answer with the TTL that was read is safe if the TTL was that of a key. -/
theorem found_answered (hT : R.Lifetimes) {steps : List CallStep} (k : String) (now : Nat) (s : Store)
    (hmem : ⟨.redis (.at k .ttl), now, s⟩ ∈ steps) (hok : ∀ x ∈ steps, ¬Refused R x)
    (honly : ∀ x ∈ steps, ∀ k', x.call = .redis (.at k' .ttl) → x = ⟨.redis (.at k .ttl), now, s⟩) {ttl body : Json}
    (httl : (R.onKey .ttl now (s k)).1 = .ok ttl) (hbody : (body.field "data").field "ttl" = ttl) :
    AdminTtlSafe (.ok body) ↔ TtlFound R steps := by
  rw [hT.ttl] at httl
  have hlive : ttl ≠ .int (-2) ↔ (live now (s k)).isSome := by
    rw [← Except.ok.inj httl, Option.isSome_iff_ne_none]
    refine not_congr (Iff.trans ?_ remaining_missing)
    exact ⟨Json.int.inj, congrArg Json.int⟩
  constructor
  · intro hsafe
    refine Or.inr fun x hx k' hc => ?_
    have hx' := honly x hx k' hc
    subst hx'
    cases hc
    exact hlive.mp (hbody ▸ hsafe body rfl)
  · intro hfound body' hbody'
    cases hbody'
    rw [hbody]
    rcases hfound with ⟨x, hx, hrefused⟩ | hfound
    · exact absurd hrefused (hok x hx)
    · exact hlive.mpr (hfound _ hmem k rfl)

/-- The size of a value is read by one command at most, which is not TTL. -/
theorem sizeInfo_cases (redisKey keyType : String) : sizeInfo redisKey keyType = .pure [] ∨
    ∃ c name, c ≠ .ttl ∧ sizeInfo redisKey keyType = (redis redisKey c).bind fun v => .pure [(name, v)] := by
  unfold sizeInfo
  split
  · exact Or.inr ⟨.strlen, "length", by simp, rfl⟩
  split
  · exact Or.inr ⟨.hlen, "field_count", by simp, rfl⟩
  split
  · exact Or.inr ⟨.llen, "length", by simp, rfl⟩
  split
  · exact Or.inr ⟨.scard, "member_count", by simp, rfl⟩
  split
  · exact Or.inr ⟨.zcard, "member_count", by simp, rfl⟩
  split
  · exact Or.inr ⟨.xlen, "length", by simp, rfl⟩
  · exact Or.inl rfl

theorem setTtl_safe (hT : R.Lifetimes) (ns typeName key : String) (body : TtlSetRequest) :
    (setTtl st client ns typeName key body).Sees (execStore R) fun steps o => AdminTtlSafe o ↔ TtlFound R steps := by
  have hnone : ∀ e, AdminTtlSafe (.error e) ↔ TtlFound R [] := found_silent fun _ hx => by cases hx
  have hlifetime : (if 0 < body.ttl then .expire body.ttl else .persist : KeyCmd) ≠ .ttl := by split <;> simp
  refine sees_admin (fun steps hs => ?_) (Sees.ofExcept_bind (fun p _ => Sees.ofExcept_bind (fun k _ => ?_) fun e _ => hnone e)
    fun e _ => hnone e)
  · exact found_silent (fun x hx k hc => hs x hx _ hc) _
  refine sees_redis (fun now s msg h => found_refused List.mem_cons_self ⟨k, _, msg, rfl, h⟩ _) fun t₁ s₁ there hthere => ?_
  cases there.truthy
  · exact found_silent (fun x hx k hc => by cases List.mem_singleton.mp hx; cases hc) _
  refine sees_redis (fun now s msg h => ?_) fun t₂ s₂ _ hset => ?_
  · exact found_refused (List.mem_cons_of_mem _ List.mem_cons_self) ⟨k, _, msg, rfl, h⟩ _
  refine sees_redis (fun now s msg h => ?_) fun t₃ s₃ ttl httl => ?_
  · exact found_refused (List.mem_cons_of_mem _ (List.mem_cons_of_mem _ List.mem_cons_self)) ⟨k, _, msg, rfl, h⟩ _
  refine found_answered hT k t₃ s₃ (by simp) ?_ ?_ httl rfl
  · intro x hx
    simp only [List.mem_cons, List.not_mem_nil, or_false] at hx
    rcases hx with rfl | rfl | rfl
    · exact not_refused hthere
    · exact not_refused hset
    · exact not_refused httl
  · intro x hx k' hc
    simp only [List.mem_cons, List.not_mem_nil, or_false] at hx
    rcases hx with rfl | rfl | rfl
    · cases hc
    · exact absurd (Cmd.at.inj (Call.redis.inj hc)).2 hlifetime
    · rfl

theorem keyInfo_safe (hT : R.Lifetimes) (ns typeName key : String) :
    (keyInfo st client ns typeName key).Sees (execStore R) fun steps o => AdminTtlSafe o ↔ TtlFound R steps := by
  have hnone : ∀ e, AdminTtlSafe (.error e) ↔ TtlFound R [] := found_silent fun _ hx => by cases hx
  refine sees_guard (fun steps message hs => ?_) fun _ => Sees.ofExcept_bind (fun p _ => Sees.ofExcept_bind (fun k _ => ?_)
    fun e _ => hnone e) fun e _ => hnone e
  · exact found_silent (fun x hx k hc => hs x hx _ hc) _
  refine sees_redis (fun now s msg h => found_refused List.mem_cons_self ⟨k, _, msg, rfl, h⟩ _) fun t₁ s₁ keyType htype => ?_
  by_cases hmissing : keyType.text = "none"
  · rw [if_pos hmissing]
    exact found_silent (fun x hx k hc => by cases List.mem_singleton.mp hx; cases hc) _
  rw [if_neg hmissing]
  refine sees_redis (fun now s msg h => ?_) fun t₂ s₂ ttl httl => ?_
  · exact found_refused (List.mem_cons_of_mem _ List.mem_cons_self) ⟨k, _, msg, rfl, h⟩ _
  refine sees_redis (fun now s msg h => ?_) fun t₃ s₃ encoding hencoding => ?_
  · exact found_refused (List.mem_cons_of_mem _ (List.mem_cons_of_mem _ List.mem_cons_self)) ⟨k, _, msg, rfl, h⟩ _
  rcases sizeInfo_cases k keyType.text with hsize | ⟨c, name, hc, hsize⟩
  · rw [hsize]
    refine found_answered hT k t₂ s₂ (by simp) ?_ ?_ httl rfl
    · intro x hx
      simp only [List.mem_cons, List.not_mem_nil, or_false] at hx
      rcases hx with rfl | rfl | rfl
      · exact not_refused htype
      · exact not_refused httl
      · exact not_refused hencoding
    · intro x hx k' hcall
      simp only [List.mem_cons, List.not_mem_nil, or_false] at hx
      rcases hx with rfl | rfl | rfl
      · cases hcall
      · rfl
      · cases hcall
  · rw [hsize, Prog.bind_eq, Prog.bind_assoc]
    refine sees_redis (fun now s msg h => ?_) fun t₄ s₄ size hread => ?_
    · refine found_refused (List.mem_append_right [_, _, _] List.mem_cons_self) ⟨k, _, msg, rfl, h⟩ _
    refine found_answered hT k t₂ s₂ (by simp) ?_ ?_ httl rfl
    · intro x hx
      simp only [List.mem_cons, List.not_mem_nil, or_false] at hx
      rcases hx with rfl | rfl | rfl | rfl
      · exact not_refused htype
      · exact not_refused httl
      · exact not_refused hencoding
      · exact not_refused hread
    · intro x hx k' hcall
      simp only [List.mem_cons, List.not_mem_nil, or_false] at hx
      rcases hx with rfl | rfl | rfl | rfl
      · cases hcall
      · rfl
      · cases hcall
      · exact absurd (Cmd.at.inj (Call.redis.inj hcall)).2 hc

/-- A refused request sends nothing to Redis, and its answer reports nothing. -/
theorem sees_adminEndpoint {client : Option ClientInfo} {op : AdminOp} {Q : List CallStep → Except Exn Json → Prop}
    (hrefused : ∀ steps e, Silent steps → Q steps (.error e))
    (h : ∀ c, op.valid = true → (op.handle st c).Sees (execStore R) Q) :
    (adminEndpoint st client op).Sees (execStore R) Q := by
  cases client with
  | none => exact fun _ _ _ _ => hrefused _ _ silent_refusal
  | some c =>
    cases hv : op.valid with
    | false =>
      have hempty : Silent [] := fun x hx => by cases hx
      simpa [adminEndpoint, verifyApiKey, hv, Sees] using hrefused [] .unprocessable hempty
    | true => simpa [adminEndpoint, verifyApiKey, hv] using h c hv

/-- Below zero the seconds that are left of a correlation are not reported. -/
theorem adminAuditOrigin_safe (ns typeName key : String) (loads : String → Option (Dict Json)) :
    (adminAuditOrigin st client ns typeName key loads).Ends (fun _ _ => True) fun o =>
      ∀ body, o = .ok body → body.field "ttl_seconds" ≠ .int (-2) := by
  have hraise : ∀ e : Exn, ∀ body : Json, (.error e : Except Exn Json) = .ok body → body.field "ttl_seconds" ≠ .int (-2) :=
    fun e body h => by cases h
  have hany : ∀ {β : Type} (p : Handler β), p.Ends (fun _ _ => True) fun _ => True := fun p => Ends.any (fun _ => trivial) p
  refine Ends.bind (hany _) (fun _ _ => Ends.bind (hany _) (fun p _ => Ends.bind (hany _) (fun k _ => Ends.bind (hany _)
    (fun raw _ => ?_) fun e _ => hraise e) fun e _ => hraise e) fun e _ => hraise e) fun e _ => hraise e
  cases raw.isNone
  · refine Ends.bind (hany _) (fun ttl _ body hbody => ?_) fun e _ => hraise e
    cases hbody
    have hne : "ttl_seconds" ≠ "redis_key" := by decide
    rw [Json.field, Dict.lookup_insert, if_neg hne, Dict.lookup_insert, if_pos rfl, Option.getD_some]
    cases ttl with
    | int n =>
      dsimp only
      split
      · rename_i hn
        intro hmissing
        cases hmissing
        omega
      · simp
    | _ => simp
  · exact hraise _

end Admin

/-! ### Both planes -/

/-- A request to either plane. -/
inductive Endpoint
  | data (ns : String) (op : Op)
  | admin (op : AdminOp)

namespace Endpoint

def program (st : Settings) (client : Option ClientInfo) : Endpoint → Handler Json
  | data ns op => endpoint st client ns op
  | admin op => adminEndpoint st client op

/-- The TTL that an answer reports, where it reports one. -/
def reported (body : Json) : Endpoint → Json
  | data _ _ => (body.field "meta").field "ttl"
  | admin (.keyInfo ..) | admin (.setTtl ..) => (body.field "data").field "ttl"
  | admin (.adminAuditOrigin ..) => body.field "ttl_seconds"
  | admin _ => .null

/-- `key_info` and `set_ttl` pass on what TTL answers. -/
def Found (R : Server) (steps : List CallStep) : Endpoint → Prop
  | admin (.keyInfo ..) | admin (.setTtl ..) => TtlFound R steps
  | _ => True

end Endpoint

section Both
variable {R : Server} {st : Settings} {client : Option ClientInfo}

theorem reported_safe (hT : R.Lifetimes) (hW : R.Writes) (x : Endpoint) : (x.program st client).Sees (execStore R) fun steps o =>
    (∀ body, o = .ok body → x.reported body ≠ .int (-2)) ↔ x.Found R steps := by
  have hnull : ∀ o : Except Exn Json, (∀ body, o = .ok body → Json.null ≠ .int (-2)) ↔ True := fun o => by simp
  have hrefused : ∀ steps e, Silent steps → (AdminTtlSafe (.error e) ↔ TtlFound R steps) := fun steps e hs =>
    found_silent (fun y hy k hc => hs y hy _ hc) e
  cases x with
  | data ns op => exact (Sees.of_ends (ttlKnown_exec hT hW) (safe_endpoint client op)).mono fun steps o ho => ⟨fun _ => trivial, fun _ => ho⟩
  | admin op =>
    cases op with
    | keyInfo ns typeName key => exact sees_adminEndpoint hrefused fun c _ => keyInfo_safe hT ns typeName key
    | setTtl ns typeName key body => exact sees_adminEndpoint hrefused fun c _ => setTtl_safe hT ns typeName key body
    | adminAuditOrigin ns typeName key loads =>
      refine sees_adminEndpoint (fun steps e _ => ⟨fun _ => trivial, fun _ body h => by cases h⟩) fun c _ => ?_
      refine (Sees.of_ends (fun _ _ _ => trivial) (adminAuditOrigin_safe ns typeName key loads)).mono fun steps o ho => ?_
      exact ⟨fun _ => trivial, fun _ => ho⟩
    | _ => exact Sees.any (fun _ o => hnull o) _

/-- No answer reports the code of a missing key as a TTL if and only if, in `key_info` and `set_ttl`, TTL
    finds its key or a command is refused. -/
theorem reported_ttl_iff (hT : R.Lifetimes) (hW : R.Writes) {x : Endpoint} {steps : List CallStep} {o : Except Exn Json}
    (h : Path (execStore R) (x.program st client) steps (Prog.ofExcept o)) :
    (∀ body, o = .ok body → x.reported body ≠ .int (-2)) ↔ x.Found R steps := by
  have hsees := sees_ofExcept (h.sees (reported_safe hT hW x))
  rwa [List.append_nil] at hsees

end Both

def adminClient : ClientInfo := ⟨"admin", "", [("*", ["read", "write"])]⟩

def persisting : Endpoint := .admin (.setTtl "app" "kv" "a" ⟨0⟩)

def keyThere : Store := Store.empty.set "app:kv:a" (some ⟨.str "v", none⟩)

/-- The key goes after its lifetime has been set. -/
def goneBeforeTtl : List CallStep :=
  [⟨.redis (.at "app:kv:a" .exists), 0, keyThere⟩, ⟨.redis (.at "app:kv:a" .persist), 0, keyThere⟩,
    ⟨.redis (.at "app:kv:a" .ttl), 0, Store.empty⟩]

def goneAnswer : Json := okSimple (.obj [("redis_key", .str "app:kv:a"), ("ttl", .int (-2))])

theorem goneBeforeTtl_path : Path (execStore reference) (persisting.program {} (some adminClient)) goneBeforeTtl
    (Prog.ofExcept (.ok goneAnswer)) := .call (.call (.call (.stop _)))

theorem reported_ttl_iff_gone : (∀ body, (.ok goneAnswer : Except Exn Json) = .ok body → persisting.reported body ≠ .int (-2)) ↔
    persisting.Found reference goneBeforeTtl :=
  reported_ttl_iff (x := persisting) reference_lifetimes reference_writes goneBeforeTtl_path

/-- The TTL that was set is reported as that of a missing key. -/
theorem missing_ttl_reported : ∃ steps body, Path (execStore reference) (persisting.program {} (some adminClient)) steps
    (Prog.ofExcept (.ok body)) ∧ persisting.reported body = .int (-2) :=
  ⟨goneBeforeTtl, goneAnswer, goneBeforeTtl_path, rfl⟩

end Redgw
