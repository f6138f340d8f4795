import Redgw.Plans
import Redgw.Sends
import Redgw.Theorems.KeyCodec
import Redgw.Theorems.QueueLedger

/-! # Items of batch and single writes

A batch write checks its items in its schema and in its handler, and so does the single write of one item.
They differ for groups, where the schema of a single write lets empty members pass, and for queues, where a
batch needs room for all its values. -/

namespace Redgw
open Redis Prog Fallible

/-- No command is answered with an error, and a script is answered as it runs on the store. -/
def Welcomed (R : Server) (now : Nat) (s : Store) : (c : Call) → c.Ret → Prop
  | .redis (.at _ _), r => Succeeds r
  | .redis (.multi _), rs => ∀ r ∈ rs, Succeeds r
  | .redis (.eval key script), r => r = (R.runScript key script now s).1
  | _, _ => True

/-- The request passes its schema and every check of its handler on the store, so that it succeeds. -/
def Accepted (R : Server) (st : Settings) (now : Nat) (s : Store) (client : ClientInfo) (ns : String) (o : Op) : Prop :=
  (endpoint st (some client) ns o).Ends (Welcomed R now s) Succeeds

/-- The items of a batch write; those of a queue or a rank are for one key. -/
inductive Batch
  | kv (items : Dict String)
  | map (items : Dict (Dict String))
  | group (items : Dict (List String))
  | queue (key : String) (direction : Side) (values : List String)
  | rank (key : String) (members : List (String × Score))

namespace Batch

def request (ttl : Option Int) : Batch → Op
  | kv items => .kv (.batchSetKv ⟨items, ttl⟩)
  | map items => .map (.batchSetMap ⟨items, ttl⟩)
  | group items => .group (.batchAddGroup ⟨items, ttl⟩)
  | queue key direction values => .queue (.batchPushQueue key ⟨values, direction, ttl⟩)
  | rank key members => .rank (.batchAddRank key ⟨members, ttl⟩)

/-- The single write of each item. -/
def singles (ttl : Option Int) : Batch → List Op
  | kv items => items.items.map fun x => .kv (.setKv x.1 ⟨x.2, ttl⟩)
  | map items => items.items.map fun x => .map (.setMap x.1 ⟨x.2, ttl⟩)
  | group items => items.items.map fun x => .group (.addGroup x.1 ⟨x.2, ttl⟩)
  | queue key direction values => values.map fun v => .queue (.pushQueue key ⟨v, direction, ttl⟩)
  | rank key members => members.map fun x => .rank (.addRank key ⟨x.1, x.2, ttl⟩)

/-- The key of the queue holds a list. -/
def Lists (ns : String) (s : Store) : Batch → Prop
  | queue key _ _ => IsList (s (joinKey ns queuePrefix key))
  | _ => True

/-- The queue has room for so many values. -/
def Room (st : Settings) (ns : String) (now : Nat) (s : Store) (n : Nat) : Batch → Prop
  | queue key _ _ => ((found now (s (joinKey ns queuePrefix key))).length : Int) + n ≤ st.defaults.maxListLength
  | _ => True

end Batch

/-! ### What is checked -/

section Checks
variable {R : Server} {st : Settings} {now : Nat} {s : Store} {client : ClientInfo} {ns : String}

theorem succeeds_checkValueSize {value label : String} : Succeeds (checkValueSize st value label) ↔ SizeOk st value := by
  unfold checkValueSize exceedsSize SizeOk
  by_cases hsize : st.defaults.maxValueSize < (utf8 value).length
  · rw [if_pos (decide_eq_true hsize)]
    exact iff_of_false (not_succeeds_error _) (Nat.not_le.mpr hsize)
  · rw [if_neg (by simpa using hsize)]
    exact iff_of_true (succeeds_ok _) (Nat.not_lt.mp hsize)

theorem succeeds_checkDictValuesSize {data : Dict String} :
    Succeeds (checkDictValuesSize st data) ↔ ∀ x ∈ data.items, SizeOk st x.2 := by
  unfold checkDictValuesSize
  simp only [succeeds_forM, succeeds_checkValueSize]

/-- The check of an item of a batch of a rank. -/
theorem succeeds_checkRankMember {member : String} {score : Score} : Succeeds (do
      checkValueSize st member "Member"
      if !score.isfinite then
        throw (error "INVALID_VALUE" "Score must be a finite number (nan/inf rejected)") : Except Exn Unit) ↔
    SizeOk st member ∧ score.isfinite = true := by
  rw [← succeeds_checkValueSize]
  refine succeeds_bind fun _ => ?_
  cases score.isfinite with
  | true => exact iff_of_true (succeeds_ok _) rfl
  | false => exact iff_of_false (not_succeeds_error _) (by decide)

theorem succeeds_buildKey {typePrefix key : String} :
    Succeeds (buildKey st.engine ns typePrefix key) ↔ nsRe ns.toList = true ∧ keyRe key.toList = true := by
  unfold Succeeds
  simp [buildKey_eq_ok]

theorem succeeds_queueItems {β : Type} {typePrefix : String} {items : List (String × β)}
    {queue : String → β → List (String × KeyCmd)} :
    Succeeds (queueItems st ns typePrefix items queue) ↔ ∀ x ∈ items, nsRe ns.toList = true ∧ keyRe x.1.toList = true := by
  unfold queueItems
  simp only [succeeds_map, succeeds_mapM, succeeds_buildKey]

/-! ### What is sent -/

theorem succeeds_replies {rs : List Reply} (h : ∀ r ∈ rs, Succeeds r) : Succeeds (replies rs) := by
  induction rs with
  | nil => exact succeeds_ok _
  | cons r rs ih =>
    obtain ⟨v, rfl⟩ := h r List.mem_cons_self
    obtain ⟨vs, hvs⟩ := ih fun r' hr' => h r' (List.mem_cons_of_mem _ hr')
    rw [replies, hvs]
    exact succeeds_ok _

theorem ends_sendAll (cs : List (String × KeyCmd)) :
    (sendAll cs).Ends (Welcomed R now s) fun out => ∃ rs, out = .ok rs ∧ ∀ r ∈ rs, Succeeds r := by
  induction cs with
  | nil => exact ⟨[], rfl, nofun⟩
  | cons x cs ih =>
    intro r hr
    show ((sendAll cs).bind fun rs => .pure (r :: rs)).Ends _ _
    refine Ends.bind_ok ih fun rs hrs => ?_
    exact ⟨r :: rs, rfl, List.forall_mem_cons.mpr ⟨hr, hrs⟩⟩

theorem ends_oneByOne (cs : List (String × KeyCmd)) :
    (sendOneByOne cs).Ends (Welcomed R now s) fun out => ∃ r, out = .ok r ∧ Succeeds r := by
  induction cs with
  | nil => exact ⟨_, rfl, succeeds_ok []⟩
  | cons x cs ih =>
    rintro r ⟨v, rfl⟩
    show ((sendOneByOne cs).bind fun r => .pure (r.map (v :: ·))).Ends _ _
    refine Ends.bind_ok ih fun r hr => ?_
    obtain ⟨vs, rfl⟩ := hr
    exact ⟨_, rfl, succeeds_ok (v :: vs)⟩

theorem ends_send (p : Plan) : p.send.Ends (Welcomed R now s) fun out => ∃ r, out = .ok r ∧ Succeeds r := by
  unfold Plan.send
  cases p.sending with
  | oneByOne => exact ends_oneByOne p.commands
  | pipeline => exact Ends.bind_ok (ends_sendAll p.commands) fun rs hrs => ⟨_, rfl, succeeds_replies hrs⟩
  | transaction => exact fun rs hrs => ⟨_, rfl, succeeds_replies hrs⟩

theorem ends_welcomed (cs : List (String × KeyCmd)) :
    (pipeline cs).Ends (Welcomed R now s) fun out => ∃ vs, out = .ok vs ∧ True := by
  refine Ends.bind_ok (ends_sendAll cs) fun rs hrs => ?_
  obtain ⟨vs, hvs⟩ := succeeds_replies hrs
  show (Prog.ofExcept (raiseFirstError rs)).Ends _ _
  rw [raiseFirstError_eq, hvs]
  exact ⟨vs, rfl, trivial⟩

/-- A plan that makes an answer of any replies succeeds. -/
theorem ends_program {p : Plan} (h : ∀ vs, Succeeds (p.data vs)) : (p.program ns).Ends (Welcomed R now s) Succeeds := by
  refine Ends.bind_ok (ends_send p) fun r hr => Ends.ofExcept ?_
  obtain ⟨vs, rfl⟩ := hr
  obtain ⟨d, hd⟩ := h vs
  rw [Plan.answer, hd]
  exact succeeds_ok _

/-! ### What is accepted -/

theorem ends_checked {α : Type} {P : Prop} {x : Except Exn α} {f : α → Handler Json}
    (hf : ∀ a, x = .ok a → ((f a).Ends (Welcomed R now s) Succeeds ↔ P)) :
    ((Prog.ofExcept x).bind f).Ends (Welcomed R now s) Succeeds ↔ Succeeds x ∧ P := by
  cases x with
  | error e => exact iff_of_false (not_succeeds_error e) fun h => not_succeeds_error e h.1
  | ok a => exact (hf a rfl).trans (and_iff_right (succeeds_ok a)).symm

theorem accepted_iff {o : Op} : Accepted R st now s client ns o ↔ o.valid = true ∧ (o.handle st client ns).Ends (Welcomed R now s) Succeeds := by
  unfold Accepted endpoint
  cases hv : o.valid with
  | false => exact iff_of_false (not_succeeds_error _) (fun h => absurd h.1 (by decide))
  | true => exact (and_iff_right rfl).symm

/-- A permitted write is accepted when its schema lets it pass and its plan is made. -/
theorem accepted_planned (hwrite : checkAccess client ns "write" = true) {o : Op} {x : Except Exn Plan}
    (hplan : o.plan st ns = some ("write", x)) (hdata : Yields (fun p => ∀ vs, Succeeds (p.data vs)) x) :
    Accepted R st now s client ns o ↔ o.valid = true ∧ Succeeds x := by
  rw [accepted_iff, o.follows "write" x hplan, requireAccess, if_pos hwrite, pure_bind]
  refine and_congr_right fun _ => ?_
  rw [ends_checked fun p hp => iff_true_intro (ends_program (hdata p hp)), and_true]

/-- The script of the push finds room for what it pushes. -/
def Push.Fits (R : Server) (now : Nat) (s : Store) (ns : String) (p : Push) : Prop :=
  ∃ v, (R.runScript (joinKey ns queuePrefix p.key) p.body now s).1 = .ok v ∧ v.isInt (-1) = false

/-- A permitted push is accepted when its schema lets it pass, its sizes are right and its key is, and it finds room. -/
theorem accepted_pushed (hwrite : checkAccess client ns "write" = true) {o : QueueOp} {p : Push} (hpush : o.push st = some p) :
    Accepted R st now s client ns (.queue o) ↔
      o.valid = true ∧ Succeeds p.check ∧ (nsRe ns.toList = true ∧ keyRe p.key.toList = true) ∧ p.Fits R now s ns := by
  have hname : Succeeds (buildKey st.engine ns queuePrefix p.key) ↔ _ := succeeds_buildKey
  have hpushed : (p.program st ns).Ends (Welcomed R now s) Succeeds ↔
      Succeeds p.check ∧ Succeeds (buildKey st.engine ns queuePrefix p.key) ∧ p.Fits R now s ns := by
    refine ends_checked fun _ _ => ends_checked fun k hk => ?_
    obtain ⟨rfl, -⟩ := buildKey_eq_ok.mp hk
    unfold Push.Fits
    constructor
    · intro h
      have hscript := h _ rfl
      revert hscript
      generalize (R.runScript (joinKey ns queuePrefix p.key) p.body now s).1 = r
      intro hscript
      rcases r with msg | v
      · exact absurd hscript (not_succeeds_error _)
      · refine ⟨v, rfl, Bool.eq_false_iff.mpr fun hfull => ?_⟩
        change (if v.isInt (-1) = true then _ else _ : Handler Json).Ends _ _ at hscript
        rw [if_pos hfull] at hscript
        exact not_succeeds_error _ hscript
    · rintro ⟨v, hv, hroom⟩ r rfl
      rw [hv]
      show (if v.isInt (-1) = true then _ else (pipeline [lifetime _ p.ttl, (_, .ttl)]).bind _ : Handler Json).Ends _ _
      rw [hroom]
      exact Ends.bind_ok (ends_welcomed _) fun vs _ => succeeds_ok _
  rw [accepted_iff, ← hname, ← hpushed]
  show o.valid = true ∧ (o.handle st client ns).Ends (Welcomed R now s) Succeeds ↔ _
  rw [QueueOp.pushes hpush, requireWrite, requireAccess, if_pos hwrite, Prog.pure_bind]

/-- A script that answers with the new length, or that it is beyond the limit. -/
theorem fits_iff {p : Push} {max : Int} {n m : Nat} (hrun : (R.runScript (joinKey ns queuePrefix p.key) p.body now s).1 =
    if max < n + m then .ok (.int (-1)) else .ok (.int (n + m))) : p.Fits R now s ns ↔ (n : Int) + m ≤ max := by
  unfold Push.Fits
  rw [hrun]
  by_cases hfull : max < n + m
  · rw [if_pos hfull]
    refine iff_of_false ?_ (Int.not_le.mpr hfull)
    rintro ⟨v, hv, hroom⟩
    cases hv
    cases hroom
  · rw [if_neg hfull]
    refine iff_of_true ⟨_, rfl, ?_⟩ (Int.not_lt.mp hfull)
    simp [Json.isInt]
    omega

theorem fits_pushQueue (hL : R.Lists) {key value : String} {direction : Side} {ttl : Option Int} {p : Push}
    (hp : (QueueOp.pushQueue key ⟨value, direction, ttl⟩).push st = some p) (hlist : IsList (s (joinKey ns queuePrefix key))) :
    p.Fits R now s ns ↔ ((found now (s (joinKey ns queuePrefix key))).length : Int) + 1 ≤ st.defaults.maxListLength := by
  cases hp
  refine fits_iff (m := 1) ((congrArg Prod.fst (run_singlePushLua hL hlist direction value st.defaults.maxListLength)).trans ?_)
  show _ = if _ < ((found now (s (joinKey ns queuePrefix key))).length : Int) + (1 : Int) then _ else (.ok (.int (_ + (1 : Int))) : Reply)
  by_cases hfull : st.defaults.maxListLength ≤ (found now (s (joinKey ns queuePrefix key))).length
  · rw [if_pos hfull, if_pos (Int.lt_add_one_of_le hfull)]
  · rw [if_neg hfull, if_neg fun h => hfull (Int.le_of_lt_add_one h)]

theorem fits_batchPushQueue (hL : R.Lists) {key : String} {values : List String} {direction : Side} {ttl : Option Int} {p : Push}
    (hp : (QueueOp.batchPushQueue key ⟨values, direction, ttl⟩).push st = some p) (hlist : IsList (s (joinKey ns queuePrefix key))) :
    p.Fits R now s ns ↔
      ((found now (s (joinKey ns queuePrefix key))).length : Int) + values.length ≤ st.defaults.maxListLength := by
  cases hp
  refine fits_iff ((congrArg Prod.fst (run_batchPushLua hL hlist direction values st.defaults.maxListLength)).trans ?_)
  split <;> rfl

/-! ### The five types -/

theorem yields_data {α β : Type} {x : Except Exn α} {y : α → Except Exn β} {q : β → Plan} (h : ∀ b vs, Succeeds ((q b).data vs)) :
    Yields (fun p => ∀ vs, Succeeds (p.data vs)) (x >>= fun a => y a >>= fun b => pure (q b)) :=
  Yields.bind fun _ _ => Yields.bind fun b _ => yields_pure (h b)

variable (hwrite : checkAccess client ns "write" = true) (ttl : Option Int)
include hwrite

theorem accepted_setKv (key value : String) : Accepted R st now s client ns (.kv (.setKv key ⟨value, ttl⟩)) ↔
    ttlInRange ttl = true ∧ nonEmpty value = true ∧ SizeOk st value ∧ nsRe ns.toList = true ∧ keyRe key.toList = true := by
  rw [accepted_planned hwrite rfl (yields_data fun _ _ => succeeds_ok _), succeeds_bind fun _ => succeeds_map.trans succeeds_buildKey,
    succeeds_checkValueSize]
  simp only [Op.valid, KvOp.valid, KvSetRequest.valid, Bool.and_eq_true]
  tauto

theorem accepted_batchSetKv (items : Dict String) : Accepted R st now s client ns (.kv (.batchSetKv ⟨items, ttl⟩)) ↔
    batchSize items.length = true ∧ ttlInRange ttl = true ∧ ∀ x ∈ items.items,
      nonEmpty x.2 = true ∧ SizeOk st x.2 ∧ nsRe ns.toList = true ∧ keyRe x.1.toList = true := by
  rw [accepted_planned hwrite rfl (yields_data fun _ _ => succeeds_ok _), succeeds_bind fun _ => succeeds_map.trans succeeds_queueItems,
    succeeds_forM]
  simp only [Op.valid, KvOp.valid, KvBatchSetRequest.valid, Bool.and_eq_true, List.all_eq_true, succeeds_checkValueSize, forall_and]
  tauto

theorem accepted_setMap (key : String) (fields : Dict String) : Accepted R st now s client ns (.map (.setMap key ⟨fields, ttl⟩)) ↔
    ttlInRange ttl = true ∧ 1 ≤ fields.length ∧ (∀ y ∈ fields.items, nonEmpty y.2 = true) ∧ (∀ y ∈ fields.items, SizeOk st y.2) ∧
      nsRe ns.toList = true ∧ keyRe key.toList = true := by
  rw [accepted_planned hwrite rfl (yields_data fun _ _ => succeeds_ok _), succeeds_bind fun _ => succeeds_map.trans succeeds_buildKey,
    succeeds_checkDictValuesSize]
  simp only [Op.valid, MapOp.valid, MapSetRequest.valid, Bool.and_eq_true, List.all_eq_true, decide_eq_true_eq]
  tauto

theorem accepted_batchSetMap (items : Dict (Dict String)) : Accepted R st now s client ns (.map (.batchSetMap ⟨items, ttl⟩)) ↔
    batchSize items.length = true ∧ ttlInRange ttl = true ∧ ∀ x ∈ items.items,
      1 ≤ x.2.length ∧ (∀ y ∈ x.2.items, nonEmpty y.2 = true) ∧ (∀ y ∈ x.2.items, SizeOk st y.2) ∧
        nsRe ns.toList = true ∧ keyRe x.1.toList = true := by
  rw [accepted_planned hwrite rfl (yields_data fun _ _ => succeeds_ok _), succeeds_bind fun _ => succeeds_map.trans succeeds_queueItems,
    succeeds_forM]
  simp only [Op.valid, MapOp.valid, MapBatchSetRequest.valid, Bool.and_eq_true, List.all_eq_true, decide_eq_true_eq,
    succeeds_checkDictValuesSize]
  simp only [forall_and]
  tauto

/-- The schema of a single write says nothing of the members. -/
theorem accepted_addGroup (key : String) (members : List String) : Accepted R st now s client ns (.group (.addGroup key ⟨members, ttl⟩)) ↔
    ttlInRange ttl = true ∧ 1 ≤ members.length ∧ (∀ m ∈ members, SizeOk st m) ∧
      nsRe ns.toList = true ∧ keyRe key.toList = true := by
  rw [accepted_planned hwrite rfl (yields_data fun _ _ => succeeds_ok _), succeeds_bind fun _ => succeeds_map.trans succeeds_buildKey,
    succeeds_forM]
  simp only [Op.valid, GroupOp.valid, GroupAddRequest.valid, Bool.and_eq_true, decide_eq_true_eq, succeeds_checkValueSize]
  tauto

theorem accepted_batchAddGroup (items : Dict (List String)) : Accepted R st now s client ns (.group (.batchAddGroup ⟨items, ttl⟩)) ↔
    batchSize items.length = true ∧ ttlInRange ttl = true ∧ ∀ x ∈ items.items,
      (∀ m ∈ x.2, nonEmpty m = true) ∧ 1 ≤ x.2.length ∧ (∀ m ∈ x.2, SizeOk st m) ∧
        nsRe ns.toList = true ∧ keyRe x.1.toList = true := by
  rw [accepted_planned hwrite rfl (yields_data fun _ _ => succeeds_ok _), succeeds_bind fun _ => succeeds_map.trans succeeds_queueItems,
    succeeds_forM]
  simp only [Op.valid, GroupOp.valid, GroupBatchAddRequest.valid, Bool.and_eq_true, List.all_eq_true, decide_eq_true_eq,
    succeeds_forM, succeeds_checkValueSize]
  simp only [forall_and]
  tauto

theorem accepted_pushQueue (hL : R.Lists) (key value : String) (direction : Side) (hlist : IsList (s (joinKey ns queuePrefix key))) :
    Accepted R st now s client ns (.queue (.pushQueue key ⟨value, direction, ttl⟩)) ↔
      (ttlInRange ttl = true ∧ nsRe ns.toList = true ∧ keyRe key.toList = true ∧
        ((found now (s (joinKey ns queuePrefix key))).length : Int) + 1 ≤ st.defaults.maxListLength) ∧
          nonEmpty value = true ∧ SizeOk st value := by
  rw [accepted_pushed hwrite rfl, fits_pushQueue hL rfl hlist, succeeds_checkValueSize]
  simp only [QueueOp.valid, QueuePushRequest.valid, Bool.and_eq_true]
  tauto

theorem accepted_batchPushQueue (hL : R.Lists) (key : String) (values : List String) (direction : Side)
    (hlist : IsList (s (joinKey ns queuePrefix key))) :
    Accepted R st now s client ns (.queue (.batchPushQueue key ⟨values, direction, ttl⟩)) ↔
      batchSize values.length = true ∧ (ttlInRange ttl = true ∧ nsRe ns.toList = true ∧ keyRe key.toList = true) ∧
        (∀ v ∈ values, nonEmpty v = true ∧ SizeOk st v) ∧
          ((found now (s (joinKey ns queuePrefix key))).length : Int) + values.length ≤ st.defaults.maxListLength := by
  rw [accepted_pushed hwrite rfl, fits_batchPushQueue hL rfl hlist, succeeds_forM]
  simp only [QueueOp.valid, QueueBatchPushRequest.valid, Bool.and_eq_true, List.all_eq_true, succeeds_checkValueSize]
  simp only [forall_and]
  tauto

theorem accepted_addRank (key member : String) (score : Score) :
    Accepted R st now s client ns (.rank (.addRank key ⟨member, score, ttl⟩)) ↔
      (ttlInRange ttl = true ∧ nsRe ns.toList = true ∧ keyRe key.toList = true) ∧
        nonEmpty member = true ∧ SizeOk st member ∧ score.isfinite = true := by
  refine (accepted_planned hwrite rfl (Yields.bind fun _ _ => ?_)).trans ?_
  · cases score.isfinite with
    | false => exact yields_throw
    | true => exact Yields.bind fun k _ => yields_pure fun _ => succeeds_ok _
  · rw [succeeds_bind (P := score.isfinite = true ∧ nsRe ns.toList = true ∧ keyRe key.toList = true) fun _ => ?_,
      succeeds_checkValueSize]
    · simp only [Op.valid, RankOp.valid, RankAddRequest.valid, Bool.and_eq_true]
      tauto
    · cases score.isfinite with
      | false => exact iff_of_false (not_succeeds_error _) (by simp)
      | true => exact (succeeds_map.trans succeeds_buildKey).trans (and_iff_right rfl).symm

theorem accepted_batchAddRank (key : String) (members : List (String × Score)) :
    Accepted R st now s client ns (.rank (.batchAddRank key ⟨members, ttl⟩)) ↔
      batchSize members.length = true ∧ (ttlInRange ttl = true ∧ nsRe ns.toList = true ∧ keyRe key.toList = true) ∧
        ∀ x ∈ members, nonEmpty x.1 = true ∧ SizeOk st x.1 ∧ x.2.isfinite = true := by
  rw [accepted_planned hwrite rfl (yields_data fun _ _ => succeeds_ok _), succeeds_bind fun _ => succeeds_map.trans succeeds_buildKey,
    succeeds_forM.trans (forall₂_congr fun x _ => succeeds_checkRankMember)]
  simp only [Op.valid, RankOp.valid, RankBatchAddRequest.valid, Bool.and_eq_true, List.all_eq_true]
  simp only [forall_and]
  tauto

/-! ### A batch against its items -/

section Items
omit hwrite
variable {α : Type} {xs : List α} {single : α → Op} {A : Prop} {P : α → Prop}

/-- What is asked of the whole batch is asked of each of its items. -/
theorem accepted_singles (hne : 1 ≤ (xs.map single).length) (h : ∀ x, Accepted R st now s client ns (single x) ↔ A ∧ P x) :
    (∀ o ∈ xs.map single, Accepted R st now s client ns o) ↔ A ∧ ∀ x ∈ xs, P x := by
  rw [List.length_map] at hne
  simp only [List.forall_mem_map, h]
  constructor
  · intro hall
    obtain ⟨x, hx⟩ := List.exists_mem_of_length_pos hne
    exact ⟨(hall x hx).1, fun y hy => (hall y hy).2⟩
  · rintro ⟨hA, hP⟩ x hx
    exact ⟨hA, hP x hx⟩

/-- A batch that asks of its items what the single writes ask. -/
theorem accepted_batch {batch : Op} (hsize : 1 ≤ (xs.map single).length ∧ (xs.map single).length ≤ 100)
    (hbatch : Accepted R st now s client ns batch ↔ batchSize xs.length = true ∧ A ∧ ∀ x ∈ xs, P x)
    (h : ∀ x, Accepted R st now s client ns (single x) ↔ A ∧ P x) :
    Accepted R st now s client ns batch ↔ ∀ o ∈ xs.map single, Accepted R st now s client ns o := by
  rw [hbatch, accepted_singles hsize.1 h]
  rw [List.length_map] at hsize
  exact and_iff_right (decide_eq_true hsize)

end Items

end Checks

/-- An item of a group has an empty member, and nothing else is wrong with the items. -/
def Batch.EmptyMember (st : Settings) (ns : String) (ttl : Option Int) : Batch → Prop
  | group items => (∃ x ∈ items.items, "" ∈ x.2) ∧ ttlInRange ttl = true ∧ ∀ x ∈ items.items,
      1 ≤ x.2.length ∧ (∀ m ∈ x.2, SizeOk st m) ∧ nsRe ns.toList = true ∧ keyRe x.1.toList = true
  | _ => False

/-- The values do not all fit into the queue, and nothing is wrong with any of them. -/
def Batch.Overflows (st : Settings) (ns : String) (now : Nat) (s : Store) (ttl : Option Int) : Batch → Prop
  | queue key direction values => ¬(queue key direction values).Room st ns now s values.length ∧ ttlInRange ttl = true ∧
      nsRe ns.toList = true ∧ keyRe key.toList = true ∧ ∀ v ∈ values, nonEmpty v = true ∧ SizeOk st v
  | _ => False

theorem nonEmpty_iff {s : String} : nonEmpty s = true ↔ s ≠ "" := by
  unfold nonEmpty
  rw [decide_eq_true_iff, Nat.one_le_iff_ne_zero, ne_eq, ne_eq, String.length_eq_zero_iff]

section Kinds
variable {R : Server} {st : Settings} {now : Nat} {s : Store} {client : ClientInfo} {ns : String} {ttl : Option Int}

theorem group_accepts_iff (hwrite : checkAccess client ns "write" = true) {items : Dict (List String)}
    (hsize : 1 ≤ ((Batch.group items).singles ttl).length ∧ ((Batch.group items).singles ttl).length ≤ 100) :
    (Accepted R st now s client ns ((Batch.group items).request ttl) ↔
      ∀ o ∈ (Batch.group items).singles ttl, Accepted R st now s client ns o) ↔ ¬(Batch.group items).EmptyMember st ns ttl := by
  have hempty : (∃ x ∈ items.items, "" ∈ x.2) ↔ ¬∀ x ∈ items.items, ∀ m ∈ x.2, nonEmpty m = true := by
    constructor
    · rintro ⟨x, hx, hm⟩ hall
      exact nonEmpty_iff.mp (hall x hx "" hm) rfl
    · intro hnot
      by_contra hnone
      exact hnot fun x hx m hm => nonEmpty_iff.mpr fun hm' => hnone ⟨x, hx, hm' ▸ hm⟩
  have hlength : batchSize items.length = true := by
    have hmap : (items.items.map fun x => Op.group (.addGroup x.1 ⟨x.2, ttl⟩)).length = items.length := List.length_map ..
    exact decide_eq_true (hmap ▸ hsize)
  show (Accepted R st now s client ns (.group (.batchAddGroup ⟨items, ttl⟩)) ↔ ∀ o ∈ items.items.map _, _) ↔ ¬(_ ∧ _)
  rw [accepted_batchAddGroup hwrite, accepted_singles hsize.1 fun x => accepted_addGroup hwrite ttl x.1 x.2, hempty, hlength]
  simp only [forall_and]
  tauto

theorem queue_accepts_iff (hL : R.Lists) (hwrite : checkAccess client ns "write" = true) {key : String} {direction : Side}
    {values : List String} (hlist : IsList (s (joinKey ns queuePrefix key)))
    (hroom : (Batch.queue key direction values).Room st ns now s 1) (hsize : 1 ≤ values.length ∧ values.length ≤ 100) :
    (Accepted R st now s client ns ((Batch.queue key direction values).request ttl) ↔
      ∀ o ∈ (Batch.queue key direction values).singles ttl, Accepted R st now s client ns o) ↔
    ¬(Batch.queue key direction values).Overflows st ns now s ttl := by
  show (Accepted R st now s client ns (.queue (.batchPushQueue key ⟨values, direction, ttl⟩)) ↔ ∀ o ∈ values.map _, _) ↔ ¬(¬(_ ≤ _) ∧ _)
  rw [accepted_batchPushQueue hwrite ttl hL key values direction hlist, accepted_singles ((List.length_map _).symm ▸ hsize.1) fun v =>
    accepted_pushQueue hwrite ttl hL key v direction hlist]
  have hbatch : batchSize values.length = true := decide_eq_true hsize
  have hone : ((found now (s (joinKey ns queuePrefix key))).length : Int) + 1 ≤ st.defaults.maxListLength := hroom
  simp only [hbatch, hone, true_and, and_true]
  tauto

end Kinds

/-- A batch of 1 to 100 items, of a queue that is not full if it is for a queue, is accepted exactly when each of its items
    is accepted alone, unless empty members of groups are all that is wrong with it, or too many values for the queue. -/
theorem batch_accepts_iff {R : Server} (hL : R.Lists) (st : Settings) (client : ClientInfo) (ns : String) (ttl : Option Int)
    (b : Batch) (now : Nat) (s : Store) (hwrite : checkAccess client ns "write" = true) (hlist : b.Lists ns s)
    (hroom : b.Room st ns now s 1) (hsize : 1 ≤ (b.singles ttl).length ∧ (b.singles ttl).length ≤ 100) :
    (Accepted R st now s client ns (b.request ttl) ↔ ∀ o ∈ b.singles ttl, Accepted R st now s client ns o) ↔
      ¬b.EmptyMember st ns ttl ∧ ¬b.Overflows st ns now s ttl := by
  cases b with
  | kv items =>
    exact iff_of_true (accepted_batch hsize (accepted_batchSetKv hwrite ttl items) fun x => accepted_setKv hwrite ttl x.1 x.2)
      ⟨not_false, not_false⟩
  | map items =>
    exact iff_of_true (accepted_batch hsize (accepted_batchSetMap hwrite ttl items) fun x => accepted_setMap hwrite ttl x.1 x.2)
      ⟨not_false, not_false⟩
  | queue key direction values =>
    rw [queue_accepts_iff hL hwrite hlist hroom ((List.length_map (f := fun v => Op.queue (.pushQueue key ⟨v, direction, ttl⟩))) ▸ hsize)]
    exact (and_iff_right not_false).symm
  | rank key members =>
    exact iff_of_true (accepted_batch hsize (accepted_batchAddRank hwrite ttl key members) fun x =>
      accepted_addRank hwrite ttl key x.1 x.2) ⟨not_false, not_false⟩
  | group items =>
    rw [group_accepts_iff hwrite hsize]
    exact (and_iff_left not_false).symm

def batchWriter : ClientInfo := ⟨"app", "", [("app", ["read", "write"])]⟩

/-- A queue with one value, of at most three. -/
def smallQueue : Store := Store.empty.set "app:q:jobs" (some ⟨.list ["a"], none⟩)

def smallQueues : Settings := { defaults := { maxListLength := 3 } }

/-- Two sets of members, two values for a queue that has room for them, and three for which it has not. -/
theorem batch_accepts_iff_three :
    (Accepted reference {} 0 Store.empty batchWriter "app" (Batch.request none (.group ⟨[("a", ["x"]), ("b", ["x", "y"])], by decide⟩)) ↔
      ∀ o ∈ Batch.singles none (.group ⟨[("a", ["x"]), ("b", ["x", "y"])], by decide⟩),
        Accepted reference {} 0 Store.empty batchWriter "app" o) ∧
    (Accepted reference smallQueues 5 smallQueue batchWriter "app" (Batch.request none (.queue "jobs" .right ["b", "c"])) ↔
      ∀ o ∈ Batch.singles none (.queue "jobs" .right ["b", "c"]), Accepted reference smallQueues 5 smallQueue batchWriter "app" o) ∧
    ¬(Accepted reference smallQueues 5 smallQueue batchWriter "app" (Batch.request none (.queue "jobs" .right ["b", "c", "d"])) ↔
      ∀ o ∈ Batch.singles none (.queue "jobs" .right ["b", "c", "d"]), Accepted reference smallQueues 5 smallQueue batchWriter "app" o) := by
  have hlist : IsList (smallQueue (joinKey "app" queuePrefix "jobs")) := Or.inr ⟨["a"], none, by decide, by decide⟩
  have hroom : ∀ {values : List String} {n : Nat}, (1 : Int) + n ≤ 3 → (Batch.queue "jobs" .right values).Room smallQueues "app" 5 smallQueue n :=
    fun h => h
  refine ⟨(batch_accepts_iff reference_lists {} batchWriter "app" none (.group ⟨[("a", ["x"]), ("b", ["x", "y"])], by decide⟩) 0
    Store.empty (by decide) trivial trivial (by decide)).mpr ⟨?_, id⟩, ?_, ?_⟩
  · rintro ⟨⟨x, hx, hm⟩, -⟩
    revert x
    decide
  · refine (batch_accepts_iff reference_lists smallQueues batchWriter "app" none (.queue "jobs" .right ["b", "c"]) 5 smallQueue
      (by decide) hlist (hroom (by decide)) (by decide)).mpr ⟨id, fun h => h.1 (hroom (by decide))⟩
  · refine fun h => ((batch_accepts_iff reference_lists smallQueues batchWriter "app" none (.queue "jobs" .right ["b", "c", "d"]) 5
      smallQueue (by decide) hlist (hroom (by decide)) (by decide)).mp h).2 ⟨?_, by decide, by decide, by decide, ?_⟩
    · exact fun h : (1 : Int) + 3 ≤ 3 => absurd h (by decide)
    · unfold SizeOk
      decide

/-- An empty member is taken from a single write, and refused in a batch of the one item. -/
theorem empty_member_in_batch : checkAccess batchWriter "app" "write" = true ∧
    Batch.singles none (.group ⟨[("a", [""])], by decide⟩) = [.group (.addGroup "a" ⟨[""], none⟩)] ∧
    Accepted reference {} 0 Store.empty batchWriter "app" (.group (.addGroup "a" ⟨[""], none⟩)) ∧
    ¬Accepted reference {} 0 Store.empty batchWriter "app" (Batch.request none (.group ⟨[("a", [""])], by decide⟩)) := by
  have hwrite : checkAccess batchWriter "app" "write" = true := by decide
  refine ⟨hwrite, rfl, ?_, ?_⟩
  · rw [accepted_addGroup hwrite]
    unfold SizeOk
    decide
  · intro h
    obtain ⟨-, -, hitems⟩ := (accepted_batchAddGroup hwrite none _).mp h
    exact absurd ((hitems ("a", [""]) (by decide)).1 "" (by decide)) (by decide)

end Redgw
