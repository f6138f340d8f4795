import Redgw.Plans
import Redgw.Theorems.Integers
import Redgw.Theorems.KeyCodec
import Redgw.Theorems.Serving

/-! # What requests reach

A request reaches keys of the type that it is about, in the namespace that it names. -/

namespace Redgw
open Redis Prog Fallible

/-- The keys of one type in a namespace. -/
def Typed (engine : Engine) (ns typePrefix k : String) : Prop := ∃ key, buildKey engine ns typePrefix key = .ok k

/-- The commands of the plan are for keys that satisfy `P`. -/
def Plan.On (P : String → Prop) (p : Plan) : Prop := ∀ x ∈ p.commands, P x.1

section On
variable {P : String → Prop} {st : Settings} {ns operation typePrefix key : String} {α : Type}

theorem on_same {p : Plan} {k : String} (hk : P k) (h : ∀ x ∈ p.commands, x.1 = k) : p.On P := fun x hx => (h x hx).symm ▸ hk

theorem on_one {p : Plan} {k : String} {c : KeyCmd} (hk : P k) (h : p.commands = [(k, c)]) : p.On P :=
  on_same hk (by simp [h])

theorem on_two {p : Plan} {k : String} {c d : KeyCmd} (hk : P k) (h : p.commands = [(k, c), (k, d)]) : p.On P :=
  on_same hk (by simp [h])

theorem on_three {p : Plan} {k : String} {c d : KeyCmd} {ttl : Int} (hk : P k)
    (h : p.commands = [(k, c), lifetime k ttl, (k, d)]) : p.On P := on_same hk (by simp [h, lifetime])

theorem on_keyed {q : String → Plan} (h : ∀ k, Typed st.engine ns typePrefix k → (q k).On P) :
    Planned.All (Plan.On P) (some (operation, buildKey st.engine ns typePrefix key >>= fun k => pure (q k))) :=
  Planned.all_some (Yields.bind fun k hk => yields_pure (h k ⟨key, hk⟩))

theorem on_checked {x : Except Exn α} {q : α → String → Plan} (h : ∀ a k, Typed st.engine ns typePrefix k → (q a k).On P) :
    Planned.All (Plan.On P) (some (operation, x >>= fun a => buildKey st.engine ns typePrefix key >>= fun k => pure (q a k))) :=
  Planned.all_some (Yields.bind fun a _ => Yields.bind fun k hk => yields_pure (h a k ⟨key, hk⟩))

theorem on_keys {keys : List String} {q : List String → Plan} {c : KeyCmd}
    (hq : ∀ ks, (q ks).commands = ks.map fun k => (k, c)) :
    Planned.All (Plan.On (Typed st.engine ns typePrefix))
      (some (operation, buildKeys st ns typePrefix keys >>= fun ks => pure (q ks))) := by
  refine Planned.all_some (Yields.bind fun ks hks => yields_pure fun x hx => ?_)
  rw [hq] at hx
  obtain ⟨k, hk, rfl⟩ := List.mem_map.mp hx
  obtain ⟨key, -, hkey⟩ := mapM_ok hks k hk
  exact ⟨key, hkey⟩

theorem on_queue {β : Type} {x : Except Exn α} {items : List (String × β)} {queue : String → β → List (String × KeyCmd)}
    {q : List (String × KeyCmd) → Plan} (hq : ∀ cs, (q cs).commands = cs) (hqueue : ∀ k b, ∀ y ∈ queue k b, y.1 = k) :
    Planned.All (Plan.On (Typed st.engine ns typePrefix))
      (some (operation, x >>= fun _ => queueItems st ns typePrefix items queue >>= fun cs => pure (q cs))) := by
  refine Planned.all_some (Yields.bind fun _ _ => Yields.bind fun cs hcs => yields_pure fun y hy => ?_)
  rw [hq] at hy
  obtain ⟨item, -, k, hk, hy⟩ := mem_queueItems hcs hy
  rw [hqueue k item.2 y hy]
  exact ⟨item.1, hk⟩

theorem on_delete {typeName : String} :
    Planned.All (Plan.On (Typed st.engine ns typePrefix)) (some ("write", deletePlan st ns typePrefix key typeName)) :=
  on_keyed fun _ hk => on_one hk rfl

theorem on_touch {typeName : String} {body : TtlSetRequest} :
    Planned.All (Plan.On (Typed st.engine ns typePrefix)) (some ("write", touchPlan st ns typePrefix key typeName body)) :=
  on_keyed fun _ hk => on_three hk rfl

theorem KvOp.plan_on (o : KvOp) : Planned.All (Plan.On (Typed st.engine ns kvPrefix)) (o.plan st ns) := by
  cases o with
  | batchGetKv body => exact Planned.all_none
  | batchSetKv body => exact on_queue (fun _ => rfl) (by simp)
  | getKv key => exact on_keyed fun _ hk => on_two hk rfl
  | setKv key body => exact on_checked fun _ _ hk => on_one hk rfl
  | deleteKv key => exact on_delete
  | existsKv key => exact on_keyed fun _ hk => on_one hk rfl
  | incrKv key body => exact on_keyed fun _ hk => on_two hk rfl
  | touchKv key body => exact on_touch
  | setKvNx key body => exact on_keyed fun _ hk => on_one hk rfl

theorem MapOp.plan_on (o : MapOp) : Planned.All (Plan.On (Typed st.engine ns mapPrefix)) (o.plan st ns) := by
  cases o with
  | batchGetMap body => exact on_keys fun _ => rfl
  | batchSetMap body => exact on_queue (fun _ => rfl) (by simp [lifetime])
  | getMap key => exact on_keyed fun _ hk => on_two hk rfl
  | getMapField key field => exact on_keyed fun _ hk => on_two hk rfl
  | setMap key body => exact on_checked fun _ _ hk => on_three hk rfl
  | touchMap key body => exact on_touch
  | setMapField key field body => exact on_checked fun _ _ hk => on_three hk rfl
  | deleteMap key => exact on_delete
  | deleteMapField key field => exact on_keyed fun _ hk => on_one hk rfl

theorem QueueOp.plan_on (o : QueueOp) : Planned.All (Plan.On (Typed st.engine ns queuePrefix)) (o.plan st ns) := by
  cases o with
  | deleteQueue key => exact on_delete
  | touchQueue key body => exact on_touch
  | trimQueue key body => exact on_keyed fun _ hk => on_two hk rfl
  | batchPushQueue key body | pushQueue key body => exact Planned.all_none
  | _ => exact on_keyed fun _ hk => on_one hk rfl

theorem GroupOp.plan_on (o : GroupOp) : Planned.All (Plan.On (Typed st.engine ns groupPrefix)) (o.plan st ns) := by
  cases o with
  | batchGetGroup body => exact on_keys fun _ => rfl
  | batchAddGroup body => exact on_queue (fun _ => rfl) (by simp [lifetime])
  | addGroup key body => exact on_checked fun _ _ hk => on_three hk rfl
  | deleteGroup key => exact on_delete
  | touchGroup key body => exact on_touch
  | interGroups body | unionGroups body | diffGroups body => exact Planned.all_none
  | _ => exact on_keyed fun _ hk => on_one hk rfl

theorem RankOp.plan_on (o : RankOp) : Planned.All (Plan.On (Typed st.engine ns rankPrefix)) (o.plan st ns) := by
  cases o with
  | batchGetRank body => exact on_keys fun _ => rfl
  | batchAddRank key body => exact on_checked fun _ _ hk => on_three hk rfl
  | addRank key body =>
    refine Planned.all_some (Yields.bind fun _ _ => ?_)
    split
    · exact yields_throw
    · exact Yields.bind fun k hk => yields_pure (P := Plan.On _) (on_three ⟨key, hk⟩ rfl)
  | deleteRank key => exact on_delete
  | incrRank key body =>
    refine Planned.all_some (Yields.bind fun _ _ => ?_)
    split
    · exact yields_throw
    · exact Yields.bind fun k hk => yields_pure (P := Plan.On _) (on_two ⟨key, hk⟩ rfl)
  | touchRank key body => exact on_touch
  | _ => exact on_keyed fun _ hk => on_one hk rfl

theorem EventOp.plan_on (o : EventOp) : Planned.All (Plan.On (Typed st.engine ns eventPrefix)) (o.plan st ns) := by
  cases o with
  | batchPublishEvent key body => exact on_checked fun _ _ hk => on_same hk (by simp)
  | publishEvent key body => exact on_checked fun _ _ hk => on_one hk rfl
  | readEvents key lastId count =>
    refine Planned.all_some (Yields.bind fun k hk => ?_)
    cases streamIdRe lastId
    · exact yields_throw
    · exact yields_pure (P := Plan.On _) (on_one ⟨key, hk⟩ rfl)
  | deleteEvent key => exact on_delete
  | touchEvent key body => exact on_touch
  | streamInfo key => exact Planned.all_none
  | ackEvents key group body => exact on_checked fun _ _ hk => on_one hk rfl
  | _ => exact on_keyed fun _ hk => on_one hk rfl

theorem Op.plan_on (o : Op) {typePrefix : String} (hp : o.typePrefix = some typePrefix) :
    Planned.All (Plan.On (Typed st.engine ns typePrefix)) (o.plan st ns) := by
  cases o <;> cases hp
  case kv o => exact o.plan_on
  case map o => exact o.plan_on
  case queue o => exact o.plan_on
  case group o => exact o.plan_on
  case rank o => exact o.plan_on
  case event o => exact o.plan_on

end On

section Reach
variable {st : Settings} {client : ClientInfo} {ns : String}

theorem reaches_guard {P : String → Prop} {operation : String} {f : Unit → Handler Json} (h : (f ()).Calls (Reaches P)) :
    ((requireAccess client ns operation).bind f).Calls (Reaches P) :=
  calls_guard (fun _ _ => trivial) (fun _ => trivial) fun _ => h

theorem reaches_program {P : String → Prop} {p : Plan} (h : p.On P) : (p.program ns).Calls (Reaches P) := by
  refine (calls_program (fun cs => ?_) p).mpr fun x hx => ?_
  · simp [Reaches, Cmd.keys]
  · simpa [Reaches, Cmd.keys] using h x hx

theorem reaches_gather {typePrefix : String} {g : GatherCmd} {keys : List String} {f : List String → Json → Handler Json}
    (hf : ∀ ks v, ∃ o, f ks v = Prog.ofExcept o) :
    ((Prog.ofExcept (buildKeys st ns typePrefix keys)).bind fun ks => (gather g ks).bind (f ks)).Calls
      (Reaches (Typed st.engine ns typePrefix)) := by
  refine Calls.ofExcept_bind fun ks hks => Calls.bind (calls_gather fun k hk => ?_) fun v => ?_
  · obtain ⟨key, -, hkey⟩ := mapM_ok hks k hk
    exact ⟨key, hkey⟩
  · obtain ⟨o, ho⟩ := hf ks v
    rw [ho]
    exact calls_ofExcept _ _

theorem reaches_push (p : Push) : ((requireWrite client ns).bind fun _ => p.program st ns).Calls
    (Reaches (Typed st.engine ns queuePrefix)) := by
  refine reaches_guard (Calls.ofExcept_bind fun _ _ => Calls.ofExcept_bind fun k hk => ?_)
  have hkey : Typed st.engine ns queuePrefix k := ⟨p.key, hk⟩
  refine Calls.bind (calls_script (by simpa [Reaches, Cmd.keys] using hkey)) fun result => ?_
  dsimp only
  split
  · trivial
  · refine Calls.bind (calls_pipeline fun x hx => ?_) fun _ => trivial
    have hx : x.1 = k := by
      rcases List.mem_pair.mp hx with rfl | rfl <;> rfl
    simpa [Reaches, Cmd.keys, hx] using hkey

theorem reaches_info (key : String) : (streamInfo st client ns key).Calls (Reaches (Typed st.engine ns eventPrefix)) := by
  refine reaches_guard (Calls.ofExcept_bind fun k hk => ?_)
  have hkey : Typed st.engine ns eventPrefix k := ⟨key, hk⟩
  have hcall : ∀ c, (redis k c).Calls (Reaches (Typed st.engine ns eventPrefix)) := fun c =>
    calls_redis (by simpa [Reaches, Cmd.keys] using hkey)
  refine Calls.bind (calls_exceptResponseError (hcall _) fun _ => trivial) fun info => ?_
  exact Calls.bind (calls_exceptResponseError (hcall _) fun _ => trivial) fun _ => trivial

theorem reaches_setOp (op : SetOp) (keys : List String) :
    (setOp st client op ns keys).Calls (Reaches (Typed st.engine ns groupPrefix)) :=
  reaches_guard (reaches_gather fun _ _ => ⟨.ok _, rfl⟩)

theorem Reaches.mono {P Q : String → Prop} (hPQ : ∀ k, P k → Q k) {c : Call} (h : Reaches P c) : Reaches Q c := by
  cases c with
  | redis c => exact fun k hk => hPQ k (h k hk)
  | _ => trivial

/-- A request reaches keys of its type in its namespace, and no others. -/
theorem Op.reaches (o : Op) : (o.handle st client ns).Calls
    (Reaches fun k => ∃ typePrefix, o.typePrefix = some typePrefix ∧ Typed st.engine ns typePrefix k) := by
  have typed : ∀ {typePrefix : String} {p : Handler Json}, o.typePrefix = some typePrefix →
      p.Calls (Reaches (Typed st.engine ns typePrefix)) →
      p.Calls (Reaches fun k => ∃ typePrefix, o.typePrefix = some typePrefix ∧ Typed st.engine ns typePrefix k) :=
    fun hp h => h.mono fun _ => Reaches.mono fun _ hk => ⟨_, hp, hk⟩
  by_cases hsome : o.plan st ns = none
  · cases o with
    | kv o =>
      cases o with
      | batchGetKv body => exact typed rfl (reaches_guard (reaches_gather fun _ _ => ⟨.ok _, rfl⟩))
      | _ => cases hsome
    | queue o =>
      cases o with
      | batchPushQueue key body | pushQueue key body =>
        rw [show Op.handle st client ns (.queue _) = _ from QueueOp.pushes rfl]
        exact typed rfl (reaches_push _)
      | _ => cases hsome
    | group o =>
      cases o with
      | interGroups body => exact typed rfl (reaches_setOp .inter body.keys)
      | unionGroups body => exact typed rfl (reaches_setOp .union body.keys)
      | diffGroups body => exact typed rfl (reaches_setOp .diff body.keys)
      | _ => cases hsome
    | event o =>
      cases o with
      | streamInfo key => exact typed rfl (reaches_info key)
      | _ => cases hsome
    | pubsub o =>
      cases o with
      | publishMessage channel body =>
        refine reaches_guard (Calls.ofExcept_bind fun _ _ => Calls.ofExcept_bind fun _ _ => Calls.ofExcept_bind fun _ _ => ?_)
        exact Calls.bind (calls_publish (fun k hk => by cases hk)) fun _ => trivial
    | map o => cases o <;> cases hsome
    | rank o => cases o <;> cases hsome
  · obtain ⟨⟨operation, x⟩, hx⟩ := Option.ne_none_iff_exists'.mp hsome
    rw [o.follows operation x hx]
    refine reaches_guard (Calls.ofExcept_bind fun p hp => reaches_program fun y hy => ?_)
    cases hprefix : o.typePrefix with
    | none =>
      cases o <;> cases hprefix
      cases hx
    | some typePrefix => exact ⟨typePrefix, rfl, o.plan_on hprefix operation x hx p hp y hy⟩

/-- A request for another type or another namespace has other keys. -/
theorem Op.reaches_other {o : Op} {ns' p key k : String} (hp : p ∈ storagePrefixes) (hk : buildKey st.engine ns p key = .ok k)
    (ho : ¬(ns' = ns ∧ o.typePrefix = some p)) : (o.handle st client ns').Calls (Reaches fun k' => k' ≠ k) := by
  have hprefixes : ∀ {p : String}, o.typePrefix = some p → p ∈ storagePrefixes := by
    intro p hp
    cases o <;> cases hp <;> decide
  refine o.reaches.mono fun c hc => hc.mono ?_
  rintro k' ⟨p', hp', key', hk'⟩ rfl
  obtain ⟨rfl, rfl, -⟩ := built_inj (hprefixes hp') hp hk' hk
  exact ho ⟨rfl, hp'⟩

end Reach

end Redgw
