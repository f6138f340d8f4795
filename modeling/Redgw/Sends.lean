import Redgw.Api
import Redgw.Redis.Kinds
import Redgw.Routers.Admin

/-! # What handlers send under each prefix

The commands that a handler sends under a storage prefix are for the type that is bound to the prefix,
and the texts that they bring have passed the size check, but for one handler that makes none. -/

namespace Redgw
open Redis Prog

/-! ### Types of keys -/

/-- The type that is bound to a storage prefix. -/
def prefixKind (typePrefix : String) : Option Kind :=
  if typePrefix = kvPrefix then some .str
  else if typePrefix = mapPrefix then some .hash
  else if typePrefix = queuePrefix then some .list
  else if typePrefix = groupPrefix then some .set
  else if typePrefix = rankPrefix then some .zset
  else if typePrefix = eventPrefix then some .stream
  else none

/-- A storage key whose prefix is bound to the type `κ`. -/
def StoredAs (engine : Engine) (κ : Kind) (k : String) : Prop :=
  ∃ ns typePrefix key, parseKey engine k = some (ns, typePrefix, key) ∧ prefixKind typePrefix = some κ

theorem prefixKind_storage {p : String} {κ : Kind} (h : prefixKind p = some κ) : p ∈ storagePrefixes := by
  unfold prefixKind at h
  repeat' split at h
  all_goals first
    | cases h; done
    | subst_vars; decide

theorem storage_prefixKind {p : String} (h : p ∈ storagePrefixes) : ∃ κ, prefixKind p = some κ := by
  have hall : storagePrefixes.all fun p => (prefixKind p).isSome := by decide
  exact Option.isSome_iff_exists.mp (List.all_eq_true.mp hall p h)

theorem storedAs_build {engine : Engine} {ns p key k : String} {κ : Kind} (hp : prefixKind p = some κ)
    (h : buildKey engine ns p key = .ok k) : StoredAs engine κ k := by
  obtain ⟨rfl, hns⟩ := buildKey_ok h
  exact ⟨ns, p, key, parseKey_eq_some.mpr ⟨rfl, hns, storagePrefixes_colon (prefixKind_storage hp)⟩, hp⟩

theorem StoredAs.unique {engine : Engine} {κ κ' : Kind} {k : String} (h : StoredAs engine κ k)
    (h' : StoredAs engine κ' k) : κ = κ' := by
  obtain ⟨ns, p, key, hk, hp⟩ := h
  obtain ⟨ns', p', key', hk', hp'⟩ := h'
  rw [hk] at hk'
  cases hk'
  rw [hp] at hp'
  exact Option.some.inj hp'

/-! ### Commands under a prefix -/

/-- The command is for keys of any type, or for those of type `κ`. No handler adds up floats in a text. -/
def Redis.KeyCmd.suits (κ : Kind) : KeyCmd → Prop
  | .incrbyfloat _ => False
  | c => c.kind = none ∨ c.kind = some κ

theorem Redis.KeyCmd.suits_kind {κ : Kind} {c : KeyCmd} (h : c.suits κ) : c.kind = none ∨ c.kind = some κ := by
  unfold KeyCmd.suits at h
  split at h
  · exact h.elim
  · exact h

theorem Redis.KeyCmd.suits_sum {κ : Kind} {c : KeyCmd} (h : c.suits κ) (delta : Score) : c ≠ .incrbyfloat delta := by
  rintro rfl
  exact h

/-- The text passes the size check. -/
def SizeOk (st : Settings) (t : String) : Prop := (utf8 t).length ≤ st.defaults.maxValueSize

theorem checkValueSize_ok {st : Settings} {t label : String} (h : checkValueSize st t label = .ok ()) : SizeOk st t := by
  unfold checkValueSize exceedsSize at h
  split at h
  · cases h
  · rename_i hsize
    exact Nat.le_of_not_lt fun hlt => hsize (decide_eq_true hlt)

/-- Every command goes to a storage key and satisfies `Q` for the type of that key. -/
def Sends (engine : Engine) (Q : Kind → KeyCmd → Prop) : Call → Prop
  | .redis (.at k c) => ∃ κ, StoredAs engine κ k ∧ Q κ c
  | .redis (.eval k body) => ∃ κ, StoredAs engine κ k ∧ body.Calls (Q κ)
  | .redis (.gather g ks) => ∀ k ∈ ks, StoredAs engine g.kind k
  | .redis (.del ks) => ∀ k ∈ ks, ∃ κ, StoredAs engine κ k ∧ Q κ .del
  | .redis (.multi cs) => ∀ x ∈ cs, ∃ κ, StoredAs engine κ x.1 ∧ Q κ x.2
  | .redis (.publish _ _) => True
  | .setPendingEvent _ _ => True
  | .fireMetric _ => True

theorem Sends.mono {engine : Engine} {P Q : Kind → KeyCmd → Prop} (h : ∀ κ c, P κ c → Q κ c) {c : Call}
    (hc : Sends engine P c) : Sends engine Q c := by
  cases c with
  | redis c =>
    cases c with
    | «at» k c =>
      obtain ⟨κ, hk, hc⟩ := hc
      exact ⟨κ, hk, h κ c hc⟩
    | eval k body =>
      obtain ⟨κ, hk, hb⟩ := hc
      exact ⟨κ, hk, hb.mono (h κ)⟩
    | gather g ks => exact hc
    | del ks =>
      intro k hk
      obtain ⟨κ, hk, hc⟩ := hc k hk
      exact ⟨κ, hk, h κ .del hc⟩
    | publish channel message => trivial
    | multi cs =>
      intro x hx
      obtain ⟨κ, hk, hc⟩ := hc x hx
      exact ⟨κ, hk, h κ x.2 hc⟩
  | setPendingEvent event errorCode => trivial
  | fireMetric reason => trivial

/-- The command is for the type, and it brings texts that pass the size check, if `checked`. -/
def Suitable (st : Settings) (checked : Prop) (κ : Kind) (c : KeyCmd) : Prop :=
  c.suits κ ∧ (checked → ∀ t ∈ c.texts, SizeOk st t)

section Rules
variable {engine : Engine} {Q : Kind → KeyCmd → Prop} {α : Type} {κ : Kind} {st : Settings} {client : ClientInfo} {ns : String}

theorem sends_guard {operation : String} {f : Unit → Handler α} (h : (f ()).Calls (Sends engine Q)) :
    ((requireAccess client ns operation).bind f).Calls (Sends engine Q) :=
  calls_guard (fun _ _ => trivial) (fun _ => trivial) fun _ => h

theorem sends_key {f : String → Handler α} {p key : String} (hp : prefixKind p = some κ)
    (h : ∀ k, StoredAs st.engine κ k → (f k).Calls (Sends st.engine Q)) :
    ((ofExcept (buildKey st.engine ns p key)).bind f).Calls (Sends st.engine Q) :=
  Calls.ofExcept_bind fun k hk => h k (storedAs_build hp hk)

theorem sends_keys {f : List String → Handler α} {p : String} {keys : List String} (hp : prefixKind p = some κ)
    (h : ∀ ks, (∀ k ∈ ks, StoredAs st.engine κ k) → (f ks).Calls (Sends st.engine Q)) :
    ((ofExcept (buildKeys st ns p keys)).bind f).Calls (Sends st.engine Q) := by
  refine Calls.ofExcept_bind fun ks hks => h ks fun k hk => ?_
  obtain ⟨key, -, hkey⟩ := Fallible.mapM_ok hks k hk
  exact storedAs_build hp hkey

theorem sends_redis {k : String} {c : KeyCmd} (hk : StoredAs engine κ k) (hc : Q κ c) :
    (redis k c).Calls (Sends engine Q) := calls_redis ⟨κ, hk, hc⟩

theorem sends_script {k : String} {body : Script} (hk : StoredAs engine κ k) (hb : body.Calls (Q κ)) :
    (script k body).Calls (Sends engine Q) := calls_script ⟨κ, hk, hb⟩

theorem sends_pipeline {k : String} {cs : List (String × KeyCmd)} (hk : StoredAs engine κ k)
    (hcs : ∀ x ∈ cs, x.1 = k ∧ Q κ x.2) : (pipeline cs).Calls (Sends engine Q) := by
  refine calls_pipeline fun x hx => ?_
  obtain ⟨hx₁, hx₂⟩ := hcs x hx
  exact ⟨κ, hx₁ ▸ hk, hx₂⟩

theorem sends_transaction {k : String} {cs : List (String × KeyCmd)} (hk : StoredAs engine κ k)
    (hcs : ∀ x ∈ cs, x.1 = k ∧ Q κ x.2) : (transaction cs).Calls (Sends engine Q) := by
  refine calls_transaction fun x hx => ?_
  obtain ⟨hx₁, hx₂⟩ := hcs x hx
  exact ⟨κ, hx₁ ▸ hk, hx₂⟩

theorem sends_reads {c : KeyCmd} {ks : List String} (hks : ∀ k ∈ ks, StoredAs engine κ k) (hc : Q κ c) :
    (pipeline (ks.map fun k => (k, c))).Calls (Sends engine Q) := by
  refine calls_pipeline fun x hx => ?_
  obtain ⟨k, hk, rfl⟩ := List.mem_map.mp hx
  exact ⟨κ, hks k hk, hc⟩

/-- A batch queues suitable commands for each of its items. -/
theorem sends_queue {β : Type} {f : List (String × KeyCmd) → Handler α} {p : String} {items : List (String × β)}
    {queue : String → β → List (String × KeyCmd)} (hp : prefixKind p = some κ)
    (hq : ∀ item ∈ items, ∀ k, ∀ x ∈ queue k item.2, x.1 = k ∧ Q κ x.2)
    (h : ∀ cs, (f cs).Calls (Sends st.engine Q)) :
    ((ofExcept (queueItems st ns p items queue)).bind fun cs => (transaction cs).bind fun _ => f cs).Calls
      (Sends st.engine Q) := by
  refine Calls.ofExcept_bind fun cs hcs => Calls.bind (calls_transaction fun x hx => ?_) fun _ => h cs
  obtain ⟨item, hitem, k, hk, hx⟩ := mem_queueItems hcs hx
  obtain ⟨hx₁, hx₂⟩ := hq item hitem k x hx
  exact ⟨κ, hx₁ ▸ storedAs_build hp hk, hx₂⟩

end Rules

/-! ### Suitable commands -/

section Suitable
variable {st : Settings} {client : ClientInfo} {ns : String} {checked : Prop} {κ : Kind}

theorem suitable_plain {c : KeyCmd} (hkind : c.suits κ) (htexts : c.texts = []) : Suitable st checked κ c := by
  refine ⟨hkind, fun _ t ht => ?_⟩
  rw [htexts] at ht
  cases ht

/-- A command that brings no texts. -/
theorem sends_plain {k : String} {c : KeyCmd} (hk : StoredAs st.engine κ k) (hc : c.suits κ) (ht : c.texts = []) :
    (redis k c).Calls (Sends st.engine (Suitable st checked)) := sends_redis hk (suitable_plain hc ht)

theorem suitable_lifetime (k : String) (ttl : Int) : (lifetime k ttl).1 = k ∧ Suitable st checked κ (lifetime k ttl).2 := by
  refine ⟨rfl, ?_⟩
  unfold lifetime
  split
  · exact suitable_plain (Or.inl rfl) rfl
  · exact suitable_plain (Or.inl rfl) rfl

theorem suitable_ttl (k : String) : k = k ∧ Suitable st checked κ .ttl := ⟨rfl, suitable_plain (Or.inl rfl) rfl⟩

/-- Commands on one key, one by one. -/
theorem on_cons {Q : Kind → KeyCmd → Prop} {k : String} {x : String × KeyCmd} {xs : List (String × KeyCmd)}
    (hx : x.1 = k ∧ Q κ x.2) (hxs : ∀ y ∈ xs, y.1 = k ∧ Q κ y.2) : ∀ y ∈ x :: xs, y.1 = k ∧ Q κ y.2 :=
  List.forall_mem_cons.mpr ⟨hx, hxs⟩

theorem on_nil {Q : Kind → KeyCmd → Prop} {k : String} : ∀ y ∈ ([] : List (String × KeyCmd)), y.1 = k ∧ Q κ y.2 := by
  intro y hy
  cases hy

/-- A write of texts, with its lifetime. -/
theorem on_write {k : String} {c : KeyCmd} {ttl : Int} (hkind : c.suits κ) (htexts : ∀ t ∈ c.texts, SizeOk st t) :
    ∀ x ∈ [(k, c), lifetime k ttl], x.1 = k ∧ Suitable st checked κ x.2 :=
  on_cons ⟨rfl, hkind, fun _ => htexts⟩ (on_cons (suitable_lifetime k ttl) on_nil)

theorem on_writeTtl {k : String} {c : KeyCmd} {ttl : Int} (hkind : c.suits κ) (htexts : ∀ t ∈ c.texts, SizeOk st t) :
    ∀ x ∈ [(k, c), lifetime k ttl, (k, .ttl)], x.1 = k ∧ Suitable st checked κ x.2 :=
  on_cons ⟨rfl, hkind, fun _ => htexts⟩ (on_cons (suitable_lifetime k ttl) (on_cons (suitable_ttl k) on_nil))

theorem on_readTtl {k : String} {c : KeyCmd} (hkind : c.suits κ) (htexts : c.texts = []) :
    ∀ x ∈ [(k, c), (k, .ttl)], x.1 = k ∧ Suitable st checked κ x.2 :=
  on_cons ⟨rfl, suitable_plain (hkind) htexts⟩ (on_cons (suitable_ttl k) on_nil)

/-- A loop of checks sends nothing, and passes what it has checked. -/
theorem sends_checks {χ : Type} {P : Call → Prop} {K : χ → Prop} {check : χ → Handler Unit} {xs : List χ} {f : Unit → Handler Json}
    (hcalls : ∀ x, (check x).Calls P) (hcheck : ∀ x ∈ xs, (check x).Ends (fun _ _ => True) fun o => o = .ok () → K x)
    (hf : (∀ x ∈ xs, K x) → (f ()).Calls P) : ((xs.forM check).bind f).Calls P :=
  Calls.bind_of (Calls.forM hcalls xs) (Ends.forM hcheck) fun _ h => hf (h rfl)

theorem ends_checkValueSize {t label : String} :
    (Prog.ofExcept (checkValueSize st t label) : Handler Unit).Ends (fun _ _ => True) fun o => o = .ok () → SizeOk st t :=
  Ends.ofExcept checkValueSize_ok

theorem checkDictValuesSize_ok {data : Dict String} (h : checkDictValuesSize st data = .ok ()) :
    ∀ x ∈ data.items, SizeOk st x.2 := by
  unfold checkDictValuesSize at h
  revert h
  generalize data.items = xs
  intro h
  induction xs with
  | nil =>
    intro x hx
    cases hx
  | cons y xs ih =>
    obtain ⟨⟨⟩, hy, hxs⟩ := Fallible.bind_ok.mp h
    intro x hx
    rcases List.mem_cons.mp hx with rfl | hx
    · exact checkValueSize_ok hy
    · exact ih hxs x hx

theorem sends_deleteKey {p key typeName : String} (hp : prefixKind p = some κ) :
    (deleteKey st ns p key typeName).Calls (Sends st.engine (Suitable st checked)) := by
  refine sends_key hp fun k hk => Calls.bind (sends_plain hk (Or.inl rfl) rfl) fun deleted => ?_
  split <;> trivial

theorem sends_touchKey {k key typeName : String} {ttl : Int} (hk : StoredAs st.engine κ k) :
    (touchKey k ttl ns key typeName).Calls (Sends st.engine (Suitable st checked)) := by
  refine Calls.bind (sends_pipeline hk ?_) fun results => ?_
  · exact on_cons ⟨rfl, suitable_plain (Or.inl rfl) rfl⟩ (on_cons (suitable_lifetime k ttl) (on_cons (suitable_ttl k) on_nil))
  · split <;> trivial

end Suitable

/-! ### The handlers -/

section Handlers
variable {st : Settings} {client : ClientInfo}

/-- `set_kv_nx` with a value that does not pass the size check. -/
def KvOp.Oversized (st : Settings) (o : KvOp) : Prop := ∃ key body, o = .setKvNx key body ∧ ¬SizeOk st body.value

theorem KvOp.sends (ns : String) (o : KvOp) :
    (o.handle st client ns).Calls (Sends st.engine (Suitable st (¬o.Oversized st))) := by
  have hp : prefixKind kvPrefix = some .str := rfl
  cases o with
  | batchGetKv body =>
    refine sends_guard (sends_keys hp fun ks hks => ?_)
    exact Calls.bind (calls_gather hks) fun _ => trivial
  | batchSetKv body =>
    refine sends_guard (sends_checks (fun _ => calls_ofExcept _ _) (fun _ _ => ends_checkValueSize) fun hsize => ?_)
    refine sends_queue hp ?_ fun _ => trivial
    intro item hitem k x hx
    rw [List.mem_singleton.mp hx]
    refine ⟨rfl, ?_⟩
    dsimp only
    split
    · exact ⟨Or.inr rfl, fun _ t ht => List.mem_singleton.mp ht ▸ hsize item hitem⟩
    · exact ⟨Or.inr rfl, fun _ t ht => List.mem_singleton.mp ht ▸ hsize item hitem⟩
  | getKv key =>
    refine sends_guard (sends_key hp fun k hk => Calls.bind (sends_pipeline hk (on_readTtl (Or.inr rfl) rfl)) fun results => ?_)
    split <;> trivial
  | setKv key body =>
    refine sends_guard (Calls.ofExcept_bind fun _ hsize => sends_key hp fun k hk => ?_)
    refine Calls.bind (sends_redis hk ?_) fun _ => trivial
    split
    · exact ⟨Or.inr rfl, fun _ t ht => List.mem_singleton.mp ht ▸ checkValueSize_ok hsize⟩
    · exact ⟨Or.inr rfl, fun _ t ht => List.mem_singleton.mp ht ▸ checkValueSize_ok hsize⟩
  | deleteKv key => exact sends_guard (sends_deleteKey hp)
  | existsKv key =>
    refine sends_guard (sends_key hp fun k hk => ?_)
    exact Calls.bind (sends_plain hk (Or.inl rfl) rfl) fun _ => trivial
  | incrKv key body =>
    refine sends_guard (sends_key hp fun k hk => ?_)
    refine Calls.bind (calls_exceptResponseError ?_ fun _ => trivial) fun _ => trivial
    exact sends_pipeline hk (on_readTtl (Or.inr rfl) rfl)
  | touchKv key body => exact sends_guard (sends_key hp fun k hk => sends_touchKey hk)
  | setKvNx key body =>
    refine sends_guard (sends_key hp fun k hk => ?_)
    refine Calls.bind (sends_redis hk ?_) fun acquired => ?_
    · have hsize : ¬(KvOp.setKvNx key body).Oversized st → SizeOk st body.value := fun h =>
        Classical.byContradiction fun hover => h ⟨key, body, rfl, hover⟩
      split
      · exact ⟨Or.inr rfl, fun h t ht => List.mem_singleton.mp ht ▸ hsize h⟩
      · exact ⟨Or.inr rfl, fun h t ht => List.mem_singleton.mp ht ▸ hsize h⟩
    · cases acquired.truthy <;> trivial

theorem MapOp.sends {checked : Prop} (ns : String) (o : MapOp) :
    (o.handle st client ns).Calls (Sends st.engine (Suitable st checked)) := by
  have hp : prefixKind mapPrefix = some .hash := rfl
  have hset : ∀ fields : Dict String, (∀ x ∈ fields.items, SizeOk st x.2) →
      ∀ t ∈ (KeyCmd.hset fields.items).texts, SizeOk st t := by
    intro fields hsize t ht
    obtain ⟨x, hx, rfl⟩ := List.mem_map.mp ht
    exact hsize x hx
  cases o with
  | batchGetMap body =>
    refine sends_guard (sends_keys hp fun ks hks => ?_)
    exact Calls.bind (sends_reads hks (suitable_plain (Or.inr rfl) rfl)) fun _ => trivial
  | batchSetMap body =>
    refine sends_guard (sends_checks (K := fun x => ∀ y ∈ x.2.items, SizeOk st y.2) (fun _ => calls_ofExcept _ _)
      (fun _ _ => Ends.ofExcept checkDictValuesSize_ok) fun hsize => ?_)
    refine sends_queue hp ?_ fun _ => trivial
    intro item hitem k
    exact on_write (Or.inr rfl) (hset item.2 (hsize item hitem))
  | getMap key =>
    refine sends_guard (sends_key hp fun k hk => Calls.bind (sends_pipeline hk (on_readTtl (Or.inr rfl) rfl)) fun results => ?_)
    split <;> trivial
  | getMapField key field =>
    refine sends_guard (sends_key hp fun k hk => Calls.bind (sends_pipeline hk (on_readTtl (Or.inr rfl) rfl)) fun results => ?_)
    split <;> trivial
  | setMap key body =>
    refine sends_guard (Calls.ofExcept_bind fun _ hsize => sends_key hp fun k hk => ?_)
    exact Calls.bind (sends_transaction hk (on_writeTtl (Or.inr rfl) (hset body.fields (checkDictValuesSize_ok hsize))))
      fun _ => trivial
  | touchMap key body => exact sends_guard (sends_key hp fun k hk => sends_touchKey hk)
  | setMapField key field body =>
    refine sends_guard (Calls.ofExcept_bind fun _ hsize => sends_key hp fun k hk => ?_)
    have hvalue : ∀ t ∈ (KeyCmd.hset [(field, body.value)]).texts, SizeOk st t :=
      fun t ht => List.mem_singleton.mp ht ▸ checkValueSize_ok hsize
    have hwrite : ∀ c : KeyCmd, c.suits .hash → c.texts = [] →
        ∀ x ∈ [(k, KeyCmd.hset [(field, body.value)]), (k, c), (k, .ttl)], x.1 = k ∧ Suitable st checked .hash x.2 :=
      fun c hc ht => on_cons ⟨rfl, Or.inr rfl, fun _ => hvalue⟩
        (on_cons ⟨rfl, suitable_plain hc ht⟩ (on_cons (suitable_ttl k) on_nil))
    dsimp only
    split
    · exact Calls.bind (sends_transaction hk (hwrite _ (Or.inl rfl) rfl)) fun _ => trivial
    · exact Calls.bind (sends_pipeline hk (hwrite _ (Or.inl rfl) rfl)) fun _ => trivial
  | deleteMap key => exact sends_guard (sends_deleteKey hp)
  | deleteMapField key field =>
    refine sends_guard (sends_key hp fun k hk => ?_)
    refine Calls.bind (sends_plain hk (Or.inr rfl) rfl) fun deleted => ?_
    split <;> trivial

/-! The commands of a script, which is on one key. -/

theorem calls_luaCall {P : KeyCmd → Prop} {c : KeyCmd} (h : P c) : (luaCall c).Calls P := by
  refine ⟨h, fun r => ?_⟩
  cases r <;> trivial

theorem calls_pushAllLua {P : KeyCmd → Prop} {direction : Side} {values : List String}
    (h : ∀ v ∈ values, P (pushCmd direction v)) : (pushAllLua direction values).Calls P := by
  induction values with
  | nil => trivial
  | cons v values ih =>
    refine Calls.bind (calls_luaCall (h v List.mem_cons_self)) fun _ => ?_
    exact ih fun w hw => h w (List.mem_cons_of_mem _ hw)

theorem calls_batchPushLua {P : KeyCmd → Prop} {direction : Side} {maxLen : Int} {values : List String} (hlen : P .llen)
    (h : ∀ v ∈ values, P (pushCmd direction v)) : (batchPushLua direction maxLen values).Calls P := by
  refine Calls.bind (calls_luaCall hlen) fun cur => ?_
  dsimp only
  split
  · trivial
  · exact Calls.bind (calls_pushAllLua h) fun _ => trivial

theorem calls_singlePushLua {P : KeyCmd → Prop} {direction : Side} {maxLen : Int} {value : String} (hlen : P .llen)
    (h : P (pushCmd direction value)) : (singlePushLua direction value maxLen).Calls P := by
  refine Calls.bind (calls_luaCall hlen) fun cur => ?_
  split
  · trivial
  · exact calls_luaCall h

theorem suitable_push {checked : Prop} {direction : Side} {value : String} (h : SizeOk st value) :
    Suitable st checked .list (pushCmd direction value) := by
  cases direction with
  | left => exact ⟨Or.inr rfl, fun _ t ht => List.mem_singleton.mp ht ▸ h⟩
  | right => exact ⟨Or.inr rfl, fun _ t ht => List.mem_singleton.mp ht ▸ h⟩

theorem QueueOp.sends {checked : Prop} (ns : String) (o : QueueOp) :
    (o.handle st client ns).Calls (Sends st.engine (Suitable st checked)) := by
  have hp : prefixKind queuePrefix = some .list := rfl
  have hlen : Suitable st checked .list .llen := suitable_plain (Or.inr rfl) rfl
  have hlifetime : ∀ k ttl, ∀ x ∈ [lifetime k ttl, (k, .ttl)], x.1 = k ∧ Suitable st checked .list x.2 :=
    fun k ttl => on_cons (suitable_lifetime k ttl) (on_cons (suitable_ttl k) on_nil)
  cases o with
  | batchPushQueue key body =>
    refine sends_guard (sends_checks (fun _ => calls_ofExcept _ _) (fun _ _ => ends_checkValueSize) fun hsize => ?_)
    refine sends_key hp fun k hk => ?_
    refine Calls.bind (sends_script hk (calls_batchPushLua hlen fun v hv => suitable_push (hsize v hv))) fun result => ?_
    cases result.isInt (-1)
    · exact Calls.bind (sends_pipeline hk (hlifetime k _)) fun _ => trivial
    · trivial
  | pushQueue key body =>
    refine sends_guard (Calls.ofExcept_bind fun _ hsize => sends_key hp fun k hk => ?_)
    refine Calls.bind (sends_script hk (calls_singlePushLua hlen (suitable_push (checkValueSize_ok hsize)))) fun result => ?_
    cases result.isInt (-1)
    · exact Calls.bind (sends_pipeline hk (hlifetime k _)) fun _ => trivial
    · trivial
  | popQueue key direction =>
    refine sends_guard (sends_key hp fun k hk => Calls.bind (sends_redis hk ?_) fun value => ?_)
    · cases direction <;> exact suitable_plain (Or.inr rfl) rfl
    · cases value.isNone <;> trivial
  | rangeQueue key start stop =>
    refine sends_guard (sends_key hp fun k hk => ?_)
    exact Calls.bind (sends_plain hk (Or.inr rfl) rfl) fun _ => trivial
  | lenQueue key =>
    refine sends_guard (sends_key hp fun k hk => ?_)
    exact Calls.bind (sends_redis hk hlen) fun _ => trivial
  | deleteQueue key => exact sends_guard (sends_deleteKey hp)
  | touchQueue key body => exact sends_guard (sends_key hp fun k hk => sends_touchKey hk)
  | trimQueue key body =>
    refine sends_guard (sends_key hp fun k hk => ?_)
    refine Calls.bind (sends_plain hk (Or.inr rfl) rfl) fun _ => ?_
    exact Calls.bind (sends_redis hk hlen) fun _ => trivial

theorem GroupOp.sends {checked : Prop} (ns : String) (o : GroupOp) :
    (o.handle st client ns).Calls (Sends st.engine (Suitable st checked)) := by
  have hp : prefixKind groupPrefix = some .set := rfl
  have hops : ∀ op keys, (setOp st client op ns keys).Calls (Sends st.engine (Suitable st checked)) := by
    intro op keys
    refine sends_guard (sends_keys hp fun ks hks => Calls.bind (calls_gather ?_) fun _ => trivial)
    cases op <;> exact hks
  cases o with
  | batchGetGroup body =>
    refine sends_guard (sends_keys hp fun ks hks => ?_)
    exact Calls.bind (sends_reads hks (suitable_plain (Or.inr rfl) rfl)) fun _ => trivial
  | batchAddGroup body =>
    refine sends_guard (sends_checks (K := fun x => ∀ m ∈ x.2, SizeOk st m)
      (fun _ => Calls.forM (fun _ => calls_ofExcept _ _) _) (fun _ _ => Ends.forM fun _ _ => ends_checkValueSize)
      fun hsize => ?_)
    refine sends_queue hp ?_ fun _ => trivial
    intro item hitem k
    exact on_write (Or.inr rfl) (hsize item hitem)
  | addGroup key body =>
    refine sends_guard (sends_checks (fun _ => calls_ofExcept _ _) (fun _ _ => ends_checkValueSize) fun hsize => ?_)
    refine sends_key hp fun k hk => ?_
    exact Calls.bind (sends_pipeline hk (on_writeTtl (Or.inr rfl) hsize)) fun _ => trivial
  | membersGroup key =>
    exact sends_guard (sends_key hp fun k hk => Calls.bind (sends_plain hk (Or.inr rfl) rfl) fun _ => trivial)
  | containsGroup key member =>
    exact sends_guard (sends_key hp fun k hk => Calls.bind (sends_plain hk (Or.inr rfl) rfl) fun _ => trivial)
  | deleteGroup key => exact sends_guard (sends_deleteKey hp)
  | removeGroup key member =>
    refine sends_guard (sends_key hp fun k hk => Calls.bind (sends_plain hk (Or.inr rfl) rfl) fun removed => ?_)
    split <;> trivial
  | countGroup key =>
    exact sends_guard (sends_key hp fun k hk => Calls.bind (sends_plain hk (Or.inr rfl) rfl) fun _ => trivial)
  | touchGroup key body => exact sends_guard (sends_key hp fun k hk => sends_touchKey hk)
  | interGroups body => exact hops .inter body.keys
  | unionGroups body => exact hops .union body.keys
  | diffGroups body => exact hops .diff body.keys

theorem RankOp.sends {checked : Prop} (ns : String) (o : RankOp) :
    (o.handle st client ns).Calls (Sends st.engine (Suitable st checked)) := by
  have hp : prefixKind rankPrefix = some .zset := rfl
  cases o with
  | batchGetRank body =>
    refine sends_guard (sends_keys hp fun ks hks => ?_)
    exact Calls.bind (sends_reads hks (suitable_plain (Or.inr rfl) rfl)) fun _ => trivial
  | batchAddRank key body =>
    refine sends_guard (sends_checks (K := fun x => SizeOk st x.1) (fun x => ?_) (fun x _ => ?_) fun hsize => ?_)
    · refine Calls.bind (calls_ofExcept _ _) fun _ => ?_
      split <;> trivial
    · refine Ends.bind ends_checkValueSize (fun _ h => ?_) fun e _ h => by cases h
      exact Ends.any (fun _ _ => h rfl) _
    · refine sends_key hp fun k hk => Calls.bind (calls_exceptResponseError ?_ fun _ => trivial) fun _ => trivial
      refine sends_pipeline hk (on_writeTtl (Or.inr rfl) fun t ht => ?_)
      obtain ⟨x, hx, rfl⟩ := List.mem_map.mp (Dict.mem_keys_ofList.mp ht)
      exact hsize x hx
  | addRank key body =>
    refine sends_guard (Calls.ofExcept_bind fun _ hsize => ?_)
    cases body.score.isfinite
    · trivial
    · refine sends_key hp fun k hk => Calls.bind (calls_exceptResponseError ?_ fun _ => trivial) fun _ => trivial
      exact sends_pipeline hk (on_writeTtl (Or.inr rfl) fun t ht => List.mem_singleton.mp ht ▸ checkValueSize_ok hsize)
  | rangeRank key start stop reverse =>
    exact sends_guard (sends_key hp fun k hk => Calls.bind (sends_plain hk (Or.inr rfl) rfl) fun _ => trivial)
  | scoreRank key member =>
    refine sends_guard (sends_key hp fun k hk => Calls.bind (sends_plain hk (Or.inr rfl) rfl) fun score => ?_)
    split <;> trivial
  | betweenRank key min max =>
    refine sends_guard (sends_key hp fun k hk => ?_)
    exact Calls.bind (calls_exceptResponseError (sends_plain hk (Or.inr rfl) rfl) fun _ => trivial) fun _ => trivial
  | deleteRank key => exact sends_guard (sends_deleteKey hp)
  | removeRank key member =>
    refine sends_guard (sends_key hp fun k hk => Calls.bind (sends_plain hk (Or.inr rfl) rfl) fun removed => ?_)
    split <;> trivial
  | incrRank key body =>
    refine sends_guard (Calls.ofExcept_bind fun _ hsize => ?_)
    cases body.delta.isfinite
    · trivial
    · refine sends_key hp fun k hk => Calls.bind (calls_exceptResponseError ?_ fun _ => trivial) fun _ => trivial
      have hmember : ∀ t ∈ (KeyCmd.zincrby body.delta body.member).texts, SizeOk st t :=
        fun t ht => List.mem_singleton.mp ht ▸ checkValueSize_ok hsize
      exact sends_pipeline hk (on_cons ⟨rfl, Or.inr rfl, fun _ => hmember⟩ (on_cons (suitable_ttl k) on_nil))
  | touchRank key body => exact sends_guard (sends_key hp fun k hk => sends_touchKey hk)
  | popRank key max =>
    refine sends_guard (sends_key hp fun k hk => Calls.bind (sends_plain hk (Or.inr rfl) rfl) fun result => ?_)
    split <;> trivial

theorem EventOp.sends {checked : Prop} (ns : String) (o : EventOp) :
    (o.handle st client ns).Calls (Sends st.engine (Suitable st checked)) := by
  have hp : prefixKind eventPrefix = some .stream := rfl
  have hadd : ∀ (data : Dict String) maxlen, (∀ x ∈ data.items, SizeOk st x.2) →
      Suitable st checked .stream (.xadd data.items maxlen) := by
    refine fun data maxlen hsize => ⟨Or.inr rfl, fun _ t ht => ?_⟩
    obtain ⟨x, hx, rfl⟩ := List.mem_map.mp ht
    exact hsize x hx
  cases o with
  | batchPublishEvent key body =>
    refine sends_guard (sends_checks (K := fun evt => ∀ x ∈ evt.items, SizeOk st x.2) (fun _ => calls_ofExcept _ _)
      (fun _ _ => Ends.ofExcept checkDictValuesSize_ok) fun hsize => ?_)
    refine sends_key hp fun k hk => Calls.bind (sends_pipeline hk fun x hx => ?_) fun _ => trivial
    obtain ⟨evt, hevt, rfl⟩ := List.mem_map.mp hx
    exact ⟨rfl, hadd evt _ (hsize evt hevt)⟩
  | publishEvent key body =>
    refine sends_guard (Calls.ofExcept_bind fun _ hsize => sends_key hp fun k hk => ?_)
    exact Calls.bind (sends_redis hk (hadd body.data _ (checkDictValuesSize_ok hsize))) fun _ => trivial
  | readEvents key lastId count =>
    refine sends_guard (sends_key hp fun k hk => ?_)
    cases streamIdRe lastId
    · trivial
    · exact Calls.bind (sends_plain hk (Or.inr rfl) rfl) fun _ => trivial
  | createGroup key body =>
    refine sends_guard (sends_key hp fun k hk => ?_)
    refine Calls.bind (calls_exceptResponseError (sends_plain hk (Or.inr rfl) rfl) fun msg => ?_) fun _ => trivial
    split <;> trivial
  | readGroup key group consumer count =>
    refine sends_guard (sends_key hp fun k hk => ?_)
    refine Calls.bind (calls_exceptResponseError (sends_plain hk (Or.inr rfl) rfl) fun msg => ?_) fun _ => trivial
    split <;> trivial
  | ackEvents key group body =>
    refine sends_guard (Calls.bind (Calls.forM (fun sid => ?_) _) fun _ => ?_)
    · split <;> trivial
    · exact sends_key hp fun k hk => Calls.bind (sends_plain hk (Or.inr rfl) rfl) fun _ => trivial
  | deleteEvent key => exact sends_guard (sends_deleteKey hp)
  | touchEvent key body => exact sends_guard (sends_key hp fun k hk => sends_touchKey hk)
  | streamInfo key =>
    refine sends_guard (sends_key hp fun k hk => ?_)
    refine Calls.bind (calls_exceptResponseError (sends_plain hk (Or.inr rfl) rfl) fun _ => trivial) fun _ => ?_
    exact Calls.bind (calls_exceptResponseError (sends_plain hk (Or.inr rfl) rfl) fun _ => trivial) fun _ => trivial

theorem PubsubOp.sends {Q : Kind → KeyCmd → Prop} (ns : String) (o : PubsubOp) :
    (o.handle st client ns).Calls (Sends st.engine Q) := by
  cases o with
  | publishMessage channel body =>
    refine sends_guard (Calls.ofExcept_bind fun _ _ => ?_)
    refine Calls.ofExcept_bind fun _ _ => Calls.ofExcept_bind fun _ _ => ?_
    exact Calls.bind (calls_publish trivial) fun _ => trivial

/-- The request that is not checked. -/
def Op.Oversized (st : Settings) (o : Op) : Prop := ∃ o', o = .kv o' ∧ o'.Oversized st

theorem Op.sends (ns : String) (o : Op) :
    (o.handle st client ns).Calls (Sends st.engine (Suitable st (¬o.Oversized st))) := by
  cases o with
  | kv o =>
    refine (o.sends ns).mono fun c hc => ?_
    have hchecked : ∀ κ cmd, Suitable st (¬o.Oversized st) κ cmd → Suitable st (¬(Op.kv o).Oversized st) κ cmd :=
      fun κ cmd h => ⟨h.1, fun hnot => h.2 fun hover => hnot ⟨o, rfl, hover⟩⟩
    exact hc.mono hchecked
  | map o => exact o.sends ns
  | queue o => exact o.sends ns
  | group o => exact o.sends ns
  | rank o => exact o.sends ns
  | event o => exact o.sends ns
  | pubsub o => exact o.sends ns

/-! The admin endpoints send commands for keys of any type and read the origins of writes. -/

def OriginRead : Call → Prop
  | .redis (.at k c) => (∃ w, k = "__redgw:audit:origin:" ++ w) ∧ (c = .get ∨ c = .ttl)
  | _ => False

theorem calls_resolveTypePrefix {P : Call → Prop} {typeName : String} {f : String → Handler Json}
    (h : ∀ p κ, prefixKind p = some κ → (f p).Calls P) : ((Prog.ofExcept (resolveTypePrefix typeName)).bind f).Calls P := by
  refine Calls.ofExcept_bind fun p hp => ?_
  obtain ⟨κ, hκ⟩ := storage_prefixKind (resolveTypePrefix_storage hp)
  exact h p κ hκ

theorem storedAs_storage {engine : Engine} {k : String} (h : isStorageKey engine k = true) : ∃ κ, StoredAs engine κ k := by
  obtain ⟨ns, p, key, hparse, hp⟩ := parse_storage.mp h
  obtain ⟨κ, hκ⟩ := storage_prefixKind hp
  exact ⟨κ, ns, p, key, hparse, hκ⟩

theorem mem_collectKeys {engine : Engine} {keys taken : List String} {k : String}
    (h : k ∈ (collectKeys engine keys taken).1) : k ∈ taken ∨ isStorageKey engine k = true := by
  induction keys generalizing taken with
  | nil => exact Or.inl h
  | cons key keys ih =>
    unfold collectKeys at h
    split at h
    · exact ih h
    · rename_i hkey
      split at h
      · exact Or.inl h
      · rcases ih h with h | h
        · rcases List.mem_append.mp h with h | h
          · exact Or.inl h
          · rw [List.mem_singleton.mp h]
            exact Or.inr (by simpa using hkey)
        · exact Or.inr h

theorem mem_batch {size : Nat} {xs batch : List String} {x : String} (hbatch : batch ∈ batches size xs) (hx : x ∈ batch) :
    x ∈ xs := by
  obtain ⟨i, -, rfl⟩ := List.mem_map.mp hbatch
  exact List.mem_of_mem_drop (List.mem_of_mem_take hx)

theorem calls_deleteBatches {P : Call → Prop} {bs : List (List String)} {deleted : Int}
    (h : ∀ batch ∈ bs, P (.redis (.del batch))) : (deleteBatches bs deleted).Calls P := by
  induction bs generalizing deleted with
  | nil => trivial
  | cons batch bs ih =>
    have hbatch : (Prog.ask (Call.redis (.del batch)) : Handler Reply).Calls P := calls_ask.mpr (h batch List.mem_cons_self)
    refine Calls.bind (Calls.bind hbatch fun r => calls_ofReply r) fun n => ?_
    exact ih fun b hb => h b (List.mem_cons_of_mem _ hb)

/-- A call of an admin endpoint. -/
def AdminCall (st : Settings) (checked : Prop) (c : Call) : Prop :=
  Sends st.engine (Suitable st checked) c ∨ OriginRead c

theorem admin_guard {checked : Prop} {ns operation : String} {f : Unit → Handler Json}
    (h : (f ()).Calls (AdminCall st checked)) : ((requireAccess client ns operation).bind f).Calls (AdminCall st checked) :=
  calls_guard (fun _ _ => Or.inl trivial) (fun _ => Or.inl trivial) fun _ => h

theorem admin_only {checked : Prop} {f : Unit → Handler Json} (h : (f ()).Calls (AdminCall st checked)) :
    ((requireAdmin client).bind f).Calls (AdminCall st checked) :=
  calls_admin (fun _ _ => Or.inl trivial) (fun _ => Or.inl trivial) fun _ => h

/-- A command on one storage key. -/
theorem admin_redis {checked : Prop} {κ : Kind} {k : String} {c : KeyCmd} (hk : StoredAs st.engine κ k) (hc : c.suits κ)
    (ht : c.texts = []) : (redis k c).Calls (AdminCall st checked) :=
  calls_redis (Or.inl ⟨κ, hk, suitable_plain hc ht⟩)

/-- The key of a path, with the type that its prefix is bound to. -/
theorem admin_key {checked : Prop} {ns typeName key : String} {f : String → String → Handler Json}
    (h : ∀ κ p k, StoredAs st.engine κ k → (f p k).Calls (AdminCall st checked)) :
    ((Prog.ofExcept (resolveTypePrefix typeName)).bind fun p =>
      (Prog.ofExcept (buildKey st.engine ns p key)).bind (f p)).Calls (AdminCall st checked) :=
  calls_resolveTypePrefix fun p κ hp => Calls.ofExcept_bind fun k hk => h κ p k (storedAs_build hp hk)

/-- `TYPE` answers with the type that the prefix of the key is bound to. -/
def TypeReplies (engine : Engine) : (c : Call) → c.Ret → Prop
  | .redis (.at k .type), r => ∀ κ, StoredAs engine κ k → r = .ok (.str "none") ∨ r = .ok (.str κ.name)
  | _, _ => True

/-- The size is asked with a command for the type that the key has. -/
theorem sizeInfo_calls {checked : Prop} {κ : Kind} {k : String} (hk : StoredAs st.engine κ k) :
    (sizeInfo k κ.name).Calls (AdminCall st checked) := by
  have hone : ∀ (c : KeyCmd) (name : String), c.suits κ → c.texts = [] →
      ((redis k c).bind fun v => .pure [(name, v)] : Handler (List (String × Json))).Calls (AdminCall st checked) :=
    fun c name hc ht => Calls.bind (admin_redis hk hc ht) fun _ => trivial
  cases κ with
  | str => exact hone .strlen "length" (Or.inr rfl) rfl
  | hash => exact hone .hlen "field_count" (Or.inr rfl) rfl
  | list => exact hone .llen "length" (Or.inr rfl) rfl
  | set => exact hone .scard "member_count" (Or.inr rfl) rfl
  | zset => exact hone .zcard "member_count" (Or.inr rfl) rfl
  | stream => exact hone .xlen "length" (Or.inr rfl) rfl

theorem keyInfo_calls {checked : Prop} {ns typeName key : String} :
    (keyInfo st client ns typeName key).CallsOn (TypeReplies st.engine) (AdminCall st checked) := by
  unfold keyInfo requireRead requireAccess
  split
  · refine CallsOn.ofExcept_bind fun p hp => CallsOn.ofExcept_bind fun k hb => ?_
    obtain ⟨κ, hκ⟩ := storage_prefixKind (resolveTypePrefix_storage hp)
    have hk := storedAs_build hκ hb
    refine ⟨Or.inl ⟨κ, hk, suitable_plain (Or.inl rfl) rfl⟩, fun r hr => ?_⟩
    rcases hr κ hk with rfl | rfl
    · trivial
    · have hname : (Json.str κ.name).text ≠ "none" := by cases κ <;> decide
      show (if (Json.str κ.name).text = "none" then _ else _ : Handler Json).CallsOn _ _
      rw [if_neg hname]
      refine Calls.on (Calls.bind (admin_redis hk (Or.inl rfl) rfl) fun ttl => ?_)
      refine Calls.bind (admin_redis hk (Or.inl rfl) rfl) fun encoding => ?_
      exact Calls.bind (sizeInfo_calls hk) fun _ => trivial
  · exact ⟨Or.inl trivial, fun _ _ => ⟨Or.inl trivial, fun _ _ => trivial⟩⟩

theorem AdminOp.sends {checked : Prop} (o : AdminOp) :
    (o.handle st client).CallsOn (TypeReplies st.engine) (AdminCall st checked) := by
  cases o with
  | listKeys ns typeName pattern scan =>
    refine Calls.on ?_
    show (Redgw.listKeys st client ns typeName pattern scan).Calls _
    unfold Redgw.listKeys
    cases filterOr ns with
    | none =>
      refine Calls.ofExcept_bind fun _ _ => ?_
      trivial
    | some ns =>
      refine Calls.ofExcept_bind fun _ _ => admin_guard ?_
      refine Calls.ofExcept_bind fun _ _ => ?_
      trivial
  | keyInfo ns typeName key => exact keyInfo_calls
  | setTtl ns typeName key body =>
    refine Calls.on (admin_only (admin_key fun κ p k hk => ?_))
    refine Calls.bind (admin_redis hk (Or.inl rfl) rfl) fun there => ?_
    cases there.truthy
    · trivial
    · refine Calls.bind (admin_redis hk ?_ ?_) fun _ => Calls.bind (admin_redis hk (Or.inl rfl) rfl) fun _ => ?_
      · split <;> exact Or.inl rfl
      · split <;> rfl
      · trivial
  | bulkDeleteKeys ns typeName pattern dryRun scanIter =>
    refine Calls.on (admin_only (Calls.ofExcept_bind fun _ _ => Calls.ofExcept_bind fun glob _ => ?_))
    dsimp only
    split
    · trivial
    · refine Calls.bind (calls_deleteBatches fun batch hbatch => Or.inl fun k hk => ?_) fun _ => ?_
      · rcases mem_collectKeys (mem_batch hbatch hk) with h | h
        · cases h
        · obtain ⟨κ, hκ⟩ := storedAs_storage h
          exact ⟨κ, hκ, suitable_plain (Or.inl rfl) rfl⟩
      · trivial
  | deleteKey ns typeName key =>
    refine Calls.on (admin_only (admin_key fun κ p k hk => ?_))
    refine Calls.bind (admin_redis hk (Or.inl rfl) rfl) fun deleted => ?_
    split <;> trivial
  | getStats limit memory keys => trivial
  | adminAuditOrigin ns typeName key loads =>
    refine Calls.on (admin_only (admin_key fun κ p k hk => ?_))
    refine Calls.bind (calls_redis (Or.inr ⟨⟨k, rfl⟩, Or.inl rfl⟩)) fun raw => ?_
    cases raw.isNone
    · refine Calls.bind (calls_redis (Or.inr ⟨⟨k, rfl⟩, Or.inr rfl⟩)) fun _ => ?_
      trivial
    · trivial

end Handlers

end Redgw
