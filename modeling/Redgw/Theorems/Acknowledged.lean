import Redgw.Plans
import Redgw.Redis.Writes
import Redgw.Theorems.Executions
import Redgw.Theorems.Lifetimes

/-! # Acknowledged writes

Some endpoints send the write and the command for the lifetime apart. The deadline that the key had before
may pass in between. -/

namespace Redgw
open Redis Prog Fallible

/-- The lifetime that these endpoints give to the key that they write to. -/
def Op.writeTtl (st : Settings) : Op → Option Int
  | queue (.pushQueue _ body) => some (resolveTtl st body.ttl)
  | queue (.batchPushQueue _ body) => some (resolveTtl st body.ttl)
  | group (.addGroup _ body) => some (resolveTtl st body.ttl)
  | rank (.addRank _ body) => some (resolveTtl st body.ttl)
  | rank (.batchAddRank _ body) => some (resolveTtl st body.ttl)
  | map (.setMapField _ _ body) => some (resolveTtl st body.ttl)
  | _ => none

/-- What they write is in the value. Of a member that is given twice the last score counts. -/
def Op.Stored : Op → Value → Prop
  | queue (.pushQueue _ body), .list xs => body.value ∈ xs
  | queue (.batchPushQueue _ body), .list xs => ∀ v ∈ body.values, v ∈ xs
  | group (.addGroup _ body), .set ms => ∀ m ∈ body.members, m ∈ ms
  | rank (.addRank _ body), .zset ms => ms.lookup body.member = some body.score
  | rank (.batchAddRank _ body), .zset ms => ∀ x ∈ (Dict.ofList body.members).items, ms.lookup x.1 = some x.2
  | map (.setMapField _ field body), .hash fs => fs.lookup field = some body.value
  | _, _ => False

section Steps
variable {R : Server} {k : String} {ttl : Int}

/-- Nobody else touches the key between the calls, and the time does not go back. -/
def Undisturbed (R : Server) (k : String) (steps : List CallStep) : Prop :=
  steps.IsChain fun a b => b.before k = (execStore R a.call a.env a.before).2 k ∧ a.env ≤ b.env

/-- Right after the last call the key holds what `P` says, and has the lifetime, counted from one of the calls. -/
def Kept (R : Server) (k : String) (P : Value → Prop) (ttl : Int) (steps : List CallStep) : Prop :=
  ∃ z, steps.getLast? = some z ∧ ∃ x, live z.env ((execStore R z.call z.env z.before).2 k) = some x ∧ P x.value ∧
    ∃ y ∈ steps, x.deadline = deadlineFor y.env ttl

/-- If the write, the command for the lifetime and TTL are three calls, the deadline that the write finds is
    still ahead at the second one, and the new deadline at the last one. -/
def InTime (k : String) (ttl : Int) : List CallStep → Prop
  | [a, b, c] => (∀ d, deadlineOf a.env (a.before k) = some d → b.env < d) ∧ (0 < ttl → c.env < ahead b.env ttl)
  | _ => True

/-- The call leaves the key there with what `P` says and with the deadline that it found. -/
def Puts (R : Server) (k : String) (P : Value → Prop) (a : CallStep) : Prop :=
  ∃ x, live a.env ((execStore R a.call a.env a.before).2 k) = some x ∧ P x.value ∧ x.deadline = deadlineOf a.env (a.before k)

/-- The calls of a write that is acknowledged. -/
inductive Written (R : Server) (k : String) (P : Value → Prop) (ttl : Int) : List CallStep → Prop
  | apart {a : CallStep} {t₂ t₃ : Nat} {s₂ s₃ : Store} {v : Json} (ha : Puts R k P a)
    (hb : (R.onKey (lifetime k ttl).2 t₂ (s₂ k)).1 = .ok v) :
    Written R k P ttl [a, ⟨.redis (.at k (lifetime k ttl).2), t₂, s₂⟩, ⟨.redis (.at k .ttl), t₃, s₃⟩]
  | together {a : CallStep} {x : Entry} (hx : live a.env ((execStore R a.call a.env a.before).2 k) = some x) (hP : P x.value)
    (hd : x.deadline = deadlineFor a.env ttl) : Written R k P ttl [a]

/-- An acknowledged write is kept if and only if it is in time. -/
theorem kept_iff (hT : R.Lifetimes) {P : Value → Prop} {steps : List CallStep} (h : Written R k P ttl steps)
    (hu : Undisturbed R k steps) : Kept R k P ttl steps ↔ InTime k ttl steps := by
  cases h with
  | @together a x hx hP hd => exact ⟨fun _ => trivial, fun _ => ⟨a, rfl, x, hx, hP, a, List.mem_singleton_self a, hd⟩⟩
  | @apart a t₂ t₃ s₂ s₃ v ha hb =>
    obtain ⟨x, hx, hP, hxd⟩ := ha
    unfold Undisturbed at hu
    rw [List.isChain_cons_cons, List.isChain_cons_cons] at hu
    obtain ⟨⟨hs₂, -⟩, ⟨hs₃, hle⟩, -⟩ := hu
    dsimp only at hs₂ hs₃ hle
    rw [live_eq_some hx] at hs₂
    have hset : s₃ k = (R.onKey (lifetime k ttl).2 t₂ (some x)).2 := by
      rw [hs₃, ← hs₂]
      exact Server.atKey_self ..
    have hend : (execStore R (.redis (.at k .ttl)) t₃ s₃).2 k = s₃ k := by
      show (R.atKey k .ttl t₃ s₃).2 k = s₃ k
      rw [Server.atKey_self, hT.ttl]
    have hkept : Kept R k P ttl [a, ⟨.redis (.at k (lifetime k ttl).2), t₂, s₂⟩, ⟨.redis (.at k .ttl), t₃, s₃⟩] ↔
        ∃ y, live t₃ (s₃ k) = some y ∧ P y.value ∧
          ∃ z ∈ [a, ⟨.redis (.at k (lifetime k ttl).2), t₂, s₂⟩, ⟨.redis (.at k .ttl), t₃, s₃⟩], y.deadline = deadlineFor z.env ttl := by
      unfold Kept
      rw [← hend]
      constructor
      · rintro ⟨z, hz, hlive⟩
        cases hz
        exact hlive
      · exact fun hlive => ⟨_, rfl, hlive⟩
    rw [hkept]
    unfold InTime
    dsimp only
    rw [← hxd]
    rw [hs₂] at hb
    rcases live_or t₂ x with hl | hl
    · have hnew : s₃ k = some { x with deadline := deadlineFor t₂ ttl } := by
        rcases onKey_lifetime hT k ttl t₂ (some x) with ⟨msg, hmsg⟩ | ⟨hnone, -⟩ | ⟨y, b, hy, hset'⟩
        · rw [hmsg] at hb
          cases hb
        · rw [hl] at hnone
          cases hnone
        · rw [hl] at hy
          cases hy
          rw [hset, hset']
      rw [hnew]
      constructor
      · rintro ⟨y, hy, -, -⟩
        refine ⟨live_iff.mp hl, fun httl => ?_⟩
        obtain rfl := Option.some.inj (live_eq_some hy)
        refine live_iff.mp hy _ ?_
        rw [deadlineFor, if_pos httl]
      · rintro ⟨-, hnew⟩
        refine ⟨{ x with deadline := deadlineFor t₂ ttl }, live_iff.mpr fun d hd => ?_, hP, _,
          List.mem_cons_of_mem _ List.mem_cons_self, rfl⟩
        unfold deadlineFor at hd
        split at hd
        · rename_i httl
          cases hd
          exact hnew httl
        · cases hd
    · have hold : s₃ k = some x := by
        rcases onKey_lifetime hT k ttl t₂ (some x) with ⟨msg, hmsg⟩ | ⟨-, b, hset'⟩ | ⟨y, b, hy, -⟩
        · rw [hmsg] at hb
          cases hb
        · rw [hset, hset']
        · rw [hl] at hy
          cases hy
      have hgone : ¬∀ d, x.deadline = some d → t₂ < d := by
        rw [← live_iff, hl]
        simp
      rw [hold]
      constructor
      · rintro ⟨y, hy, -, -⟩
        obtain rfl := Option.some.inj (live_eq_some hy)
        exact absurd (fun d hd => lt_of_le_of_lt hle (live_iff.mp hy d hd)) hgone
      · exact fun hin => absurd hin.1 hgone

end Steps

/-! ### Pushes -/

section Scripts
variable {R : Server} {now : Nat} {e e' : Option Entry} {r : Json}

/-- A script, alone on the entry of its key. -/
abbrev OnEntry (R : Server) (now : Nat) (body : Script) (e : Option Entry) : Except String Json × Option Entry :=
  body.run (fun c now e => R.onKey c now e) (fun _ => now) e

theorem luaCall_ok {c : KeyCmd} (h : OnEntry R now (luaCall c) e = (.ok r, e')) : R.onKey c now e = (.ok r, e') := by
  obtain ⟨reply, e₁, hask, hreply⟩ := run_bind_inv h
  have hanswer : R.onKey c now e = (reply, e₁) := by
    cases hask
    rfl
  cases reply with
  | error msg => cases hreply
  | ok v =>
    cases hreply
    exact hanswer

theorem push_isPush (direction : Side) (value : String) : (pushCmd direction value).isPush = true := by
  cases direction <;> rfl

theorem push_adds (direction : Side) (value : String) : (pushCmd direction value).Adds := by
  cases direction <;> trivial

/-- A push that is answered: the element is found with the others, and the deadline is what it was. -/
theorem pushed (hW : R.Writes) {direction : Side} {value : String} (h : R.onKey (pushCmd direction value) now e = (.ok r, e')) :
    (∃ xs d, live now e' = some ⟨.list xs, d⟩) ∧ deadlineOf now e' = deadlineOf now e ∧ value ∈ found now e' ∧
      ∀ w ∈ found now e, w ∈ found now e' := by
  obtain ⟨⟨v, d⟩, hx, hadded⟩ := hW.adds (pushCmd direction value) now e r (push_adds direction value) (by rw [h])
  have hothers := hW.pushes (pushCmd direction value) now e (push_isPush direction value)
  have hkeeps := hW.keeps (pushCmd direction value) now e (by cases direction <;> rfl)
  rw [h] at hx hothers hkeeps
  dsimp only at hx hothers hkeeps
  have hlist : ∃ xs, v = .list xs ∧ value ∈ xs := by
    cases direction <;> cases v <;> first | exact hadded.elim | exact ⟨_, rfl, hadded⟩
  obtain ⟨xs, rfl, hvalue⟩ := hlist
  refine ⟨⟨xs, d, hx⟩, ?_, ?_, hothers⟩
  · rcases hkeeps with hnone | hkept
    · rw [hx] at hnone
      cases hnone
    · exact hkept
  · rw [found, hx]
    exact hvalue

/-- The elements of a batch are found once they are pushed, and so are those that were there before. -/
theorem pushedAll (hW : R.Writes) {direction : Side} {values : List String} (hne : values ≠ [])
    (h : OnEntry R now (pushAllLua direction values) e = (.ok r, e')) :
    (∃ xs d, live now e' = some ⟨.list xs, d⟩) ∧ deadlineOf now e' = deadlineOf now e ∧ (∀ v ∈ values, v ∈ found now e') ∧
      ∀ w ∈ found now e, w ∈ found now e' := by
  induction values generalizing e r with
  | nil => exact absurd rfl hne
  | cons value values ih =>
    obtain ⟨v, e₁, hpush, hrest⟩ := run_bind_inv h
    obtain ⟨hlist, hdl, hvalue, hothers⟩ := pushed hW (luaCall_ok hpush)
    cases values with
    | nil =>
      cases hrest
      refine ⟨hlist, hdl, fun w hw => ?_, hothers⟩
      rw [List.mem_singleton.mp hw]
      exact hvalue
    | cons value' values =>
      obtain ⟨hlist', hdl', hvalues', hothers'⟩ := ih (List.cons_ne_nil _ _) hrest
      refine ⟨hlist', hdl'.trans hdl, fun w hw => ?_, fun w hw => hothers' w (hothers w hw)⟩
      rcases List.mem_cons.mp hw with rfl | hw
      · exact hothers' _ hvalue
      · exact hvalues' w hw

theorem singlePush_pushed (hR : R.Lawful) (hW : R.Writes) {direction : Side} {value : String} {maxLen : Int}
    (h : OnEntry R now (singlePushLua direction value maxLen) e = (.ok r, e')) (hfull : r.isInt (-1) = false) :
    (∃ xs d, live now e' = some ⟨.list xs, d⟩) ∧ deadlineOf now e' = deadlineOf now e ∧ value ∈ found now e' := by
  obtain ⟨cur, e₁, hlen, hrest⟩ := run_bind_inv h
  obtain rfl : e = e₁ := by
    have hread := hR.reads .llen rfl now e
    rw [luaCall_ok hlen] at hread
    exact hread.symm
  by_cases hmax : maxLen ≤ luaNumber cur
  · rw [if_pos hmax] at hrest
    cases hrest
    cases hfull
  · rw [if_neg hmax] at hrest
    obtain ⟨hlist, hdl, hvalue, -⟩ := pushed hW (luaCall_ok hrest)
    exact ⟨hlist, hdl, hvalue⟩

theorem batchPush_pushed (hR : R.Lawful) (hW : R.Writes) {direction : Side} {values : List String} {maxLen : Int}
    (hne : values ≠ []) (h : OnEntry R now (batchPushLua direction maxLen values) e = (.ok r, e')) (hfull : r.isInt (-1) = false) :
    (∃ xs d, live now e' = some ⟨.list xs, d⟩) ∧ deadlineOf now e' = deadlineOf now e ∧ ∀ v ∈ values, v ∈ found now e' := by
  obtain ⟨cur, e₁, hlen, hrest⟩ := run_bind_inv h
  obtain rfl : e = e₁ := by
    have hread := hR.reads .llen rfl now e
    rw [luaCall_ok hlen] at hread
    exact hread.symm
  by_cases hmax : maxLen < luaNumber cur + values.length
  · rw [if_pos hmax] at hrest
    cases hrest
    cases hfull
  · rw [if_neg hmax] at hrest
    obtain ⟨u, e₂, hall, hend⟩ := run_bind_inv hrest
    cases hend
    obtain ⟨hlist, hdl, hvalues, -⟩ := pushedAll hW hne hall
    exact ⟨hlist, hdl, hvalues⟩

end Scripts

/-! ### The calls of a write -/

section Calls
variable {R : Server} {st : Settings} {ns k : String} {ttl : Int} {P : Value → Prop}

/-- If the answer is a success, the calls are those of a write. -/
def Acknowledges (R : Server) (k : String) (P : Value → Prop) (ttl : Int) (steps : List CallStep) (o : Except Exn Json) : Prop :=
  ∀ body, o = .ok body → Written R k P ttl steps

theorem acknowledges_error (steps : List CallStep) (e : Exn) : Acknowledges R k P ttl steps (.error e) := fun _ h => by cases h

theorem acknowledges_answer {p : Plan} {r : Except String (List Json)} {steps : List CallStep}
    (h : ∀ vs, r = .ok vs → Written R k P ttl steps) : Acknowledges R k P ttl steps (p.answer ns r) := by
  intro body hbody
  cases r with
  | error msg => cases hbody
  | ok vs => exact h vs rfl

theorem puts_adds (hW : R.Writes) {c : KeyCmd} (hc : c.Adds) (hP : ∀ v, c.Added v → P v) {now : Nat} {s : Store} {v : Json}
    (h : (R.onKey c now (s k)).1 = .ok v) : Puts R k P ⟨.redis (.at k c), now, s⟩ := by
  obtain ⟨x, hx, hadded⟩ := hW.adds c now (s k) v hc h
  have hself : (execStore R (.redis (.at k c)) now s).2 k = (R.onKey c now (s k)).2 := Server.atKey_self ..
  have hkeepsTtl : c.keepsTtl = true := by
    cases c <;> first | exact hc.elim | rfl
  refine ⟨x, ?_, hP _ hadded, ?_⟩
  · show live now ((execStore R (.redis (.at k c)) now s).2 k) = some x
    rw [hself]
    exact hx
  · rcases hW.keeps c now (s k) hkeepsTtl with hnone | hkept
    · rw [hx] at hnone
      cases hnone
    · show x.deadline = deadlineOf now (s k)
      rw [← hkept, deadlineOf, hx]
      rfl

theorem acknowledges_apart (hW : R.Writes) {p : Plan} {c : KeyCmd} (hsend : p.sending = .pipeline)
    (hcs : p.commands = [(k, c), lifetime k ttl, (k, .ttl)]) (hc : c.Adds) (hP : ∀ v, c.Added v → P v) :
    (p.program ns).Sees (execStore R) (Acknowledges R k P ttl) := by
  unfold Plan.program Plan.send
  rw [hsend, hcs]
  intro t₁ s₁ t₂ s₂ t₃ s₃
  refine ofExcept_sees (acknowledges_answer fun vs hvs => ?_)
  obtain ⟨v, ws, hv, hws, -⟩ := replies_cons hvs
  obtain ⟨w, us, hw, -, -⟩ := replies_cons hws
  exact .apart (puts_adds hW hc hP hv) hw

theorem acknowledges_together (hT : R.Lifetimes) (hW : R.Writes) {p : Plan} {c : KeyCmd} (hsend : p.sending = .transaction)
    (hcs : p.commands = [(k, c), lifetime k ttl, (k, .ttl)]) (hc : c.Adds) (hP : ∀ v, c.Added v → P v) :
    (p.program ns).Sees (execStore R) (Acknowledges R k P ttl) := by
  unfold Plan.program Plan.send
  rw [hsend, hcs]
  intro now s
  refine ofExcept_sees (acknowledges_answer fun vs hvs => ?_)
  obtain ⟨v, hv, hlive⟩ := transact_lifetime hT hvs
  obtain ⟨x, hx, hadded⟩ := hW.adds c now (s k) v hc hv
  obtain ⟨hstored, -⟩ := hlive x hx
  refine .together (x := { x with deadline := deadlineFor now ttl }) ?_ (hP _ hadded) rfl
  show live now ((R.transact now [(k, c), lifetime k ttl, (k, .ttl)] s).2 k) = _
  rw [hstored]
  exact live_deadlineFor now ttl x.value

/-- The command for the lifetime and TTL, if they end with an answer. -/
theorem sees_lifetime (ttl : Int) (g : List Json → Json) : ((pipeline [lifetime k ttl, (k, .ttl)]).bind fun vs => .pure (g vs)).Sees
    (execStore R) fun steps o => ∀ body, o = .ok body → ∃ t₂ s₂ t₃ s₃ v,
      steps = [⟨.redis (.at k (lifetime k ttl).2), t₂, s₂⟩, ⟨.redis (.at k .ttl), t₃, s₃⟩] ∧
      (R.onKey (lifetime k ttl).2 t₂ (s₂ k)).1 = .ok v := by
  intro t₂ s₂ t₃ s₃
  show ((Prog.ofExcept (raiseFirstError [(R.onKey (lifetime k ttl).2 t₂ (s₂ k)).1, (R.onKey .ttl t₃ (s₃ k)).1])).bind _ :
    Handler Json).Sees _ _
  rw [raiseFirstError_bind]
  cases hr : replies [(R.onKey (lifetime k ttl).2 t₂ (s₂ k)).1, (R.onKey .ttl t₃ (s₃ k)).1] with
  | error msg => exact fun body hbody => by cases hbody
  | ok vs =>
    obtain ⟨v, ws, hv, -, -⟩ := replies_cons hr
    exact fun body hbody => ⟨t₂, s₂, t₃, s₃, v, rfl, hv⟩

theorem acknowledges_push {p : Push} (hk : buildKey st.engine ns queuePrefix p.key = .ok k)
    (hputs : ∀ now s v, (R.runScript k p.body now s).1 = .ok v → v.isInt (-1) = false → Puts R k P ⟨.redis (.eval k p.body), now, s⟩) :
    (p.program st ns).Sees (execStore R) (Acknowledges R k P p.ttl) := by
  refine Sees.ofExcept_bind (fun _ _ => Sees.ofExcept_bind (fun k' hk' => ?_) fun e _ => acknowledges_error _ e)
    fun e _ => acknowledges_error _ e
  rw [hk] at hk'
  cases hk'
  intro t₁ s₁
  cases hr : (execStore R (.redis (.eval k p.body)) t₁ s₁).1 with
  | error msg => exact acknowledges_error _ _
  | ok v =>
    cases hfull : v.isInt (-1) with
    | true =>
      show (if v.isInt (-1) = true then Prog.raise _ else _ : Handler Json).Sees _ _
      rw [hfull]
      exact acknowledges_error _ _
    | false =>
      show (if v.isInt (-1) = true then _ else _ : Handler Json).Sees _ _
      rw [hfull]
      refine (sees_lifetime p.ttl _).mono fun steps o hsteps body hbody => ?_
      obtain ⟨t₂, s₂, t₃, s₃, w, rfl, hw⟩ := hsteps body hbody
      exact .apart (hputs t₁ s₁ v hr hfull) hw

end Calls

/-! ### The endpoints -/

section Requests
variable {R : Server} {st : Settings} {ns k : String} {ttl : Int}

theorem dict_adds {members : List (String × Score)} (hne : members ≠ []) : (KeyCmd.zadd (Dict.ofList members).items).Adds := by
  refine ⟨fun hnil => ?_, (Dict.ofList members).nodup⟩
  obtain ⟨x, hx⟩ := List.exists_mem_of_ne_nil members hne
  have hmem : x.1 ∈ (Dict.ofList members).items.map (·.1) := Dict.mem_keys_ofList.mpr (List.mem_map_of_mem hx)
  rw [hnil] at hmem
  cases hmem

/-- The plans of the writes that are no pushes. -/
theorem plan_acknowledges (hT : R.Lifetimes) (hW : R.Writes) {o : Op} (ha : o.Addresses st ns k) (hvalid : o.valid = true)
    (httl : o.writeTtl st = some ttl) :
    (o.plan st ns).All fun p => (p.program ns).Sees (execStore R) (Acknowledges R k o.Stored ttl) := by
  obtain ⟨typePrefix, hp, -, hk⟩ := ha.built
  cases o with
  | kv o => cases httl
  | map o =>
    cases hp
    cases o with
    | setMapField key field body =>
      cases httl
      have hadds : (KeyCmd.hset [(field, body.value)]).Adds := ⟨List.cons_ne_nil _ _, List.nodup_singleton _⟩
      have hstored : ∀ v, (KeyCmd.hset [(field, body.value)]).Added v → (Op.map (.setMapField key field body)).Stored v := by
        intro v hv
        cases v with
        | hash fs => exact hv (field, body.value) (List.mem_singleton_self _)
        | _ => exact hv
      refine all_checked (hk key rfl) fun _ => ?_
      by_cases hpos : 0 < resolveTtl st body.ttl
      · exact acknowledges_together hT hW (if_pos hpos) rfl hadds hstored
      · exact acknowledges_apart hW (if_neg hpos) rfl hadds hstored
    | _ => cases httl
  | queue o => cases o with
    | pushQueue key body => exact Planned.all_none
    | batchPushQueue key body => exact Planned.all_none
    | _ => cases httl
  | group o =>
    cases hp
    cases o with
    | addGroup key body =>
      cases httl
      have hlen : body.valid = true := hvalid
      simp only [GroupAddRequest.valid, Bool.and_eq_true, decide_eq_true_eq] at hlen
      refine all_checked (hk key rfl) fun _ => acknowledges_apart hW rfl rfl (List.ne_nil_of_length_pos hlen.1) fun v hv => ?_
      cases v <;> exact hv
    | _ => cases httl
  | rank o =>
    cases hp
    cases o with
    | addRank key body =>
      cases httl
      have hadds : (KeyCmd.zadd [(body.member, body.score)]).Adds := ⟨List.cons_ne_nil _ _, List.nodup_singleton _⟩
      refine Planned.all_some (Yields.bind fun _ _ => ?_)
      cases body.score.isfinite
      · exact yields_throw
      · refine yields_keyed (hk key rfl) (acknowledges_apart hW rfl rfl hadds fun v hv => ?_)
        cases v with
        | zset ms => exact hv (body.member, body.score) (List.mem_singleton_self _)
        | _ => exact hv
    | batchAddRank key body =>
      cases httl
      have hlen : body.valid = true := hvalid
      simp only [RankBatchAddRequest.valid, batchSize, Bool.and_eq_true, decide_eq_true_eq] at hlen
      have hadds := dict_adds (List.ne_nil_of_length_pos hlen.1.1.1)
      refine all_checked (hk key rfl) fun _ => acknowledges_apart hW rfl rfl hadds fun v hv => ?_
      cases v <;> exact hv
    | _ => cases httl
  | event o => cases httl
  | pubsub o => cases httl

/-- The pushes. -/
theorem push_acknowledges (hR : R.Lawful) (hW : R.Writes) {o : QueueOp} {p : Push} (hp : o.push st = some p)
    (ha : (Op.queue o).Addresses st ns k) (hvalid : o.valid = true) :
    (p.program st ns).Sees (execStore R) (Acknowledges R k (Op.queue o).Stored p.ttl) := by
  obtain ⟨_, hprefix, -, hk⟩ := ha.built
  cases hprefix
  have hputs : ∀ {body : Script} {now : Nat} {s : Store} {xs : List String} {d : Option Nat} {P : Value → Prop},
      live now (OnEntry R now body (s k)).2 = some ⟨.list xs, d⟩ →
      deadlineOf now (OnEntry R now body (s k)).2 = deadlineOf now (s k) → P (.list xs) →
      Puts R k P ⟨.redis (.eval k body), now, s⟩ := by
    intro body now s xs d P hlive hdl hP
    have hself : (execStore R (.redis (.eval k body)) now s).2 k = (OnEntry R now body (s k)).2 := Store.set_self ..
    refine ⟨⟨.list xs, d⟩, ?_, hP, ?_⟩
    · show live now ((execStore R (.redis (.eval k body)) now s).2 k) = _
      rw [hself, hlive]
    · show d = deadlineOf now (s k)
      rw [← hdl, deadlineOf, hlive]
      rfl
  cases o with
  | pushQueue key body =>
    cases hp
    refine acknowledges_push (hk key rfl) fun now s v hv hfull => ?_
    obtain ⟨⟨xs, d, hlive⟩, hdl, hvalue⟩ := singlePush_pushed hR hW (Prod.ext hv rfl) hfull
    rw [found, hlive] at hvalue
    exact hputs hlive hdl hvalue
  | batchPushQueue key body =>
    cases hp
    have hlen : body.valid = true := hvalid
    simp only [QueueBatchPushRequest.valid, batchSize, Bool.and_eq_true, decide_eq_true_eq] at hlen
    refine acknowledges_push (hk key rfl) fun now s v hv hfull => ?_
    obtain ⟨⟨xs, d, hlive⟩, hdl, hvalues⟩ :=
      batchPush_pushed hR hW (List.ne_nil_of_length_pos hlen.1.1.1) (Prod.ext hv rfl) hfull
    rw [found, hlive] at hvalues
    exact hputs hlive hdl hvalues
  | _ => cases hp

/-- The writes without a plan are pushes. -/
theorem write_pushes {o : Op} (httl : o.writeTtl st = some ttl) (hnone : o.plan st ns = none) :
    ∃ q p, o = .queue q ∧ q.push st = some p ∧ p.ttl = ttl := by
  cases o with
  | queue q => cases q with
    | pushQueue key body =>
      cases httl
      exact ⟨.pushQueue key body, _, rfl, rfl, rfl⟩
    | batchPushQueue key body =>
      cases httl
      exact ⟨.batchPushQueue key body, _, rfl, rfl, rfl⟩
    | _ => cases httl
  | map q => cases q with
    | setMapField key field body => cases hnone
    | _ => cases httl
  | group q => cases q with
    | addGroup key body => cases hnone
    | _ => cases httl
  | rank q => cases q with
    | addRank key body => cases hnone
    | batchAddRank key body => cases hnone
    | _ => cases httl
  | _ => cases httl

/-- An acknowledged write is kept with its lifetime if and only if it is in time. -/
theorem acknowledged_write_kept_iff (hR : R.Lawful) (hT : R.Lifetimes) (hW : R.Writes) {client : Option ClientInfo} {o : Op}
    (ha : o.Addresses st ns k) (httl : o.writeTtl st = some ttl) {steps : List CallStep} {body : Json}
    (h : Path (execStore R) (endpoint st client ns o) steps (Prog.pure body)) (hu : Undisturbed R k steps) :
    Kept R k o.Stored ttl steps ↔ InTime k ttl steps := by
  have hsees : (endpoint st client ns o).Sees (execStore R) (Acknowledges R k o.Stored ttl) := by
    refine sees_endpoint (fun _ _ => acknowledges_error _ _) (acknowledges_error _ _) fun c _ hvalid => ?_
    by_cases hnone : o.plan st ns = none
    · obtain ⟨q, p, rfl, hp, rfl⟩ := write_pushes httl hnone
      have hpush : (Op.queue q).handle st c ns = (requireWrite c ns).bind fun _ => p.program st ns := QueueOp.pushes hp
      rw [hpush]
      exact sees_guard (fun _ _ _ => acknowledges_error _ _) fun _ => push_acknowledges hR hW hp ha hvalid
    · obtain ⟨⟨operation, x⟩, hx⟩ := Option.ne_none_iff_exists'.mp hnone
      rw [o.follows operation x hx]
      refine sees_guard (fun _ _ _ => acknowledges_error _ _) fun _ => ?_
      exact Sees.ofExcept_bind (fun p hp => plan_acknowledges hT hW ha hvalid httl operation x hx p hp)
        fun e _ => acknowledges_error _ e
  have hwritten := h.sees hsees body rfl
  rw [List.append_nil] at hwritten
  exact kept_iff hT hwritten hu

end Requests

def groupWriter : ClientInfo := ⟨"app", "", [("app", ["write"])]⟩

def addMember : Op := .group (.addGroup "a" ⟨["y"], some 0⟩)

/-- A set that expires at 10. -/
def expiringAtTen : Store := Store.empty.set "app:grp:a" (some ⟨.set ["x"], some 10⟩)

def memberAdded : Store := (reference.atKey "app:grp:a" (.sadd ["y"]) 5 expiringAtTen).2

/-- SADD comes at 5, PERSIST and TTL come when the set has expired. -/
def lateSteps : List CallStep :=
  [⟨.redis (.at "app:grp:a" (.sadd ["y"])), 5, expiringAtTen⟩, ⟨.redis (.at "app:grp:a" .persist), 15, memberAdded⟩,
    ⟨.redis (.at "app:grp:a" .ttl), 15, (reference.atKey "app:grp:a" .persist 15 memberAdded).2⟩]

def addedAnswer : Json := ok (.obj [("added", .int 1)]) "app" "a" "set"

theorem lateSteps_path : Path (execStore reference) (endpoint {} (some groupWriter) "app" addMember) lateSteps
    (Prog.pure addedAnswer) := .call (.call (.call (.stop _)))

theorem addMember_addresses : addMember.Addresses {} "app" "app:grp:a" := ⟨groupPrefix, "a", rfl, rfl, rfl⟩

theorem lateSteps_undisturbed : Undisturbed reference "app:grp:a" lateSteps := by
  unfold Undisturbed lateSteps
  rw [List.isChain_cons_cons, List.isChain_cons_cons]
  exact ⟨⟨rfl, by decide⟩, ⟨rfl, by decide⟩, .singleton _⟩

theorem acknowledged_write_kept_iff_late : Kept reference "app:grp:a" addMember.Stored 0 lateSteps ↔
    InTime "app:grp:a" 0 lateSteps :=
  acknowledged_write_kept_iff reference_lawful reference_lifetimes reference_writes addMember_addresses rfl
    lateSteps_path lateSteps_undisturbed

/-- A member that is added as its set expires is acknowledged and lost. -/
theorem acknowledged_write_lost : ∃ steps body, Path (execStore reference) (endpoint {} (some groupWriter) "app" addMember) steps
    (Prog.pure body) ∧ Undisturbed reference "app:grp:a" steps ∧ ¬Kept reference "app:grp:a" addMember.Stored 0 steps := by
  refine ⟨lateSteps, addedAnswer, lateSteps_path, lateSteps_undisturbed, fun hkept => ?_⟩
  obtain ⟨z, hz, x, hx, -⟩ := hkept
  cases hz
  cases hx

end Redgw
