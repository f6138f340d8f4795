import Redgw.Redis.Refusals
import Redgw.Redis.Typing
import Redgw.Sends
import Redgw.Theorems.QueueLedger
import Redgw.Theorems.ReadOnly
import Redgw.Theorems.TtlReports
import Redgw.Theorems.WrittenTtl

/-! # Lifetimes under refused requests

A request that is refused has sent nothing, has been turned down by its command, or has only found out that
there is nothing to do. -/

namespace Redgw
open Redis Prog Fallible

/-- A key that was there is there with its lifetime, and one that comes does not expire. -/
structure TtlKept (now : Nat) (e e' : Option Entry) : Prop where
  deadline : deadlineOf now e' = deadlineOf now e
  there : (live now e).isSome → (live now e').isSome

/-- One key, with a value of its type. -/
theorem typed_single {engine : Engine} {ns p key k : String} {κ : Kind} (hp : prefixKind p = some κ)
    (hk : buildKey engine ns p key = .ok k) {x : Entry} (hx : HasKind κ (some x)) :
    (Store.empty.set k (some x)).Typed (StoredAs engine) :=
  (Store.empty_typed _).set (fun _ _ _ h h' => h.unique h') (storedAs_build hp hk) hx

/-! ### What commands leave of lifetimes -/

namespace TtlKept
variable {now : Nat} {a b c : Option Entry}

theorem refl (now : Nat) (e : Option Entry) : TtlKept now e e := ⟨rfl, id⟩

theorem of_eq (h : b = a) : TtlKept now a b := by
  subst h
  exact refl now b

theorem trans (h₁ : TtlKept now a b) (h₂ : TtlKept now b c) : TtlKept now a c :=
  ⟨h₂.deadline.trans h₁.deadline, fun h => h₂.there (h₁.there h)⟩

/-- Nothing is changed of a key that is not there, but one that does not expire may come. -/
theorem of_missing (ha : live now a = none) (hb : deadlineOf now b = none) : TtlKept now a b := by
  refine ⟨?_, fun h => ?_⟩
  · rw [hb, deadlineOf, ha]
    rfl
  · rw [ha] at h
    cases h

theorem of_live {x : Entry} (hx : live now b = some x) (hd : deadlineOf now b = deadlineOf now a) : TtlKept now a b :=
  ⟨hd, fun _ => by rw [hx]; rfl⟩

theorem of_same (h : SameButGroups a b) : TtlKept now a b := by
  cases a with
  | none =>
    cases b with
    | none => exact refl now none
    | some y => exact h.elim
  | some x =>
    cases b with
    | none => exact h.elim
    | some y =>
      have halive : x.alive now = y.alive now := by simp only [Entry.alive, h.2]
      have hx : live now (some x) = if y.alive now then some x else none := by rw [live, Option.filter_some, halive]
      have hy : live now (some y) = if y.alive now then some y else none := by rw [live, Option.filter_some]
      cases hnow : y.alive now with
      | true =>
        rw [hnow, if_pos rfl] at hx hy
        exact .of_live hy (by simp [deadlineOf, hx, hy, h.2])
      | false =>
        rw [hnow, if_neg (by decide)] at hx hy
        exact .of_missing hx (by simp [deadlineOf, hy])

end TtlKept

section Spares
variable {R : Server} {now : Nat} {s t u : Store}

theorem kept_incrby (hW : R.Writes) (hF : R.Refusals) (delta : Int) (e : Option Entry) :
    TtlKept now e (R.onKey (.incrby delta) now e).2 := by
  cases hr : (R.onKey (.incrby delta) now e).1 with
  | error msg => exact .of_eq (hF.refused _ now e msg hr)
  | ok v => exact ⟨hW.leaves (.incrby delta) now e rfl, fun _ => hF.incrby delta now e v hr⟩

/-- No key loses or gets a lifetime. -/
def AllKept (now : Nat) (s t : Store) : Prop := ∀ k, TtlKept now (s k) (t k)

theorem AllKept.refl (now : Nat) (s : Store) : AllKept now s s := fun _ => .refl now _

theorem AllKept.trans (h₁ : AllKept now s t) (h₂ : AllKept now t u) : AllKept now s u := fun k => (h₁ k).trans (h₂ k)

/-- Of commands on one key only that key is to be looked at. -/
theorem allKept_transact {k : String} {cs : List (String × KeyCmd)} (hcs : ∀ x ∈ cs, x.1 = k)
    (h : TtlKept now (s k) ((R.transact now cs s).2 k)) : AllKept now s (R.transact now cs s).2 := by
  intro k'
  by_cases hk : k' = k
  · subst hk
    exact h
  · exact .of_eq (Server.transact_ne fun x hx => by rw [hcs x hx]; exact hk)

theorem allKept_atKey {k : String} {c : KeyCmd} (h : TtlKept now (s k) (R.onKey c now (s k)).2) :
    AllKept now s (R.atKey k c now s).2 := by
  have hown : ∀ x ∈ [(k, c)], x.1 = k := fun x hx => by rw [List.mem_singleton.mp hx]
  refine allKept_transact hown ?_
  show TtlKept now (s k) ((R.atKey k c now s).2 k)
  rwa [Server.atKey_self]

/-- The call changes no lifetime. -/
def Calm (R : Server) (now : Nat) (c : Call) : Prop := ∀ s, AllKept now s (execStore R c now s).2

theorem calm_pending (event code : String) : Calm R now (.setPendingEvent event code) := fun s => .refl now s

theorem calm_metric (hW : R.Writes) (hF : R.Refusals) (reason : String) : Calm R now (.fireMetric reason) := by
  intro s k
  show TtlKept now (s k) ((R.transact now (recordAuthFailure reason) s).2 k)
  refine Server.transact_entries (E := fun k e => TtlKept now (s k) e) (Q := fun _ c => c = .incrby 1)
    (fun k c hc e he => ?_) (fun x hx => ?_) (fun k => .refl now _) k
  · subst hc
    exact he.trans (kept_incrby hW hF 1 e)
  · rw [List.mem_singleton.mp hx]
    rfl

theorem calm_gentle (hR : R.Lawful) {u : Use} (hu : u.gentle) {c : Cmd} (hc : Uses u c) : Calm R now (.redis c) :=
  fun s k => .of_same (exec_gentle hR hu hc now s k)

/-- If the program, alone, ends with a refusal, no lifetime has changed. An error of Redis that nobody
    catches is no refusal. -/
def Spares (R : Server) (now : Nat) (s : Store) {α : Type} (p : Handler α) : Prop :=
  ∀ e t, Alone R now p s = (.error e, t) → (∀ msg, e ≠ .redis msg) → AllKept now s t

variable {α β : Type}

theorem spares_calm {p : Handler α} (h : p.Calls (Calm R now)) : Spares R now s p := by
  intro e t hrun _
  have hkept : AllKept now s (Alone R now p s).2 :=
    run_keeps (K := AllKept now) (AllKept.refl now) (fun _ _ _ => AllKept.trans) (fun c hc _ s => hc s) h s
  rwa [hrun] at hkept

theorem spares_ofExcept {x : Except Exn α} {f : α → Handler β} (h : ∀ a, x = .ok a → Spares R now s (f a)) :
    Spares R now s ((Prog.ofExcept x).bind f) := by
  cases x with
  | ok a => exact h a rfl
  | error e =>
    intro e' t hrun _
    cases hrun
    exact .refl now s

theorem spares_access (hW : R.Writes) (hF : R.Refusals) {client : ClientInfo} {ns operation : String} {f : Unit → Handler α}
    (h : Spares R now s (f ())) : Spares R now s ((requireAccess client ns operation).bind f) := by
  unfold requireAccess
  split
  · exact h
  · exact spares_calm ⟨calm_pending _ _, fun _ => ⟨calm_metric hW hF _, fun _ => trivial⟩⟩

theorem spares_admin (hW : R.Writes) (hF : R.Refusals) {client : ClientInfo} {f : Unit → Handler α}
    (h : Spares R now s (f ())) : Spares R now s ((requireAdmin client).bind f) := by
  unfold requireAdmin
  split
  · exact h
  · exact spares_calm ⟨calm_pending _ _, fun _ => ⟨calm_metric hW hF _, fun _ => trivial⟩⟩

/-- The program raises the errors of Redis only. -/
def Raises (p : Handler α) : Prop := p.Ends (fun _ _ => True) fun o => ∀ e, o = .error e → ∃ msg, e = .redis msg

theorem raises_reply (r : Reply) : Raises (ofReply r) := by
  cases r with
  | ok v =>
    intro e he
    cases he
  | error msg =>
    intro e he
    cases he
    exact ⟨msg, rfl⟩

theorem raises_redis (k : String) (c : KeyCmd) : Raises (redis k c) := fun r _ => raises_reply r

theorem raises_script (k : String) (body : Script) : Raises (script k body) := fun r _ => raises_reply r

theorem raises_bind {p : Handler α} {f : α → Handler β} (hp : Raises p) (hf : ∀ a, Raises (f a)) : Raises (p.bind f) :=
  Ends.bind hp (fun a _ => hf a) fun e he => fun e' he' => by
    cases he'
    exact he e rfl

theorem raises_pure (a : α) : Raises (.pure a : Handler α) := fun _ h => by cases h

theorem raised {p : Handler α} (hp : Raises p) {e : Exn} (h : Alone R now p s = (.error e, t)) : ∃ msg, e = .redis msg := by
  have hends : ∀ e, (Alone R now p s).1 = .error e → ∃ msg, e = .redis msg := run_ends hp (fun _ => now) s
  exact hends e (congrArg Prod.fst h)

theorem spares_raises {p : Handler α} (hp : Raises p) : Spares R now s p := by
  intro e t hrun he
  obtain ⟨msg, rfl⟩ := raised hp hrun
  exact absurd rfl (he msg)

/-- A command that is awaited. Its error is no refusal. -/
theorem spares_redis {k : String} {c : KeyCmd} {f : Json → Handler α}
    (h : ∀ v, (R.onKey c now (s k)).1 = .ok v → ∀ e t, Alone R now (f v) (R.atKey k c now s).2 = (.error e, t) →
      (∀ msg, e ≠ .redis msg) → AllKept now s t) : Spares R now s ((redis k c).bind f) := by
  intro e t hrun he
  rcases alone_bind_error hrun with hsent | ⟨v, u, hsent, hrest⟩
  · obtain ⟨msg, rfl⟩ := raised (raises_redis k c) hsent
    exact absurd rfl (he msg)
  · obtain ⟨r, w, hask, hreply⟩ := alone_bind_ok hsent
    have hrw : r = (R.onKey c now (s k)).1 ∧ w = (R.atKey k c now s).2 := by
      cases hask
      exact ⟨rfl, rfl⟩
    obtain ⟨hr, rfl⟩ := hrw
    cases r with
    | error msg => cases hreply
    | ok v' =>
      cases hreply
      exact h v hr.symm e t hrest he

end Spares

/-! ### Refused plans -/

section Refused
variable {R : Server} {st : Settings} {ns k : String} {now : Nat} {s t : Store}

/-- Where the answer of the plan is a refusal, its commands have changed no lifetime. -/
structure Plan.Spares (R : Server) (now : Nat) (s : Store) (p : Plan) : Prop where
  answered : ∀ vs e, replies (R.transact now p.commands s).1 = .ok vs → p.data vs = .error e →
    AllKept now s (R.transact now p.commands s).2
  failed : (∀ msg, p.onError msg = .redis msg) ∨ (p.sending = .pipeline ∨ ∃ x, p.commands = [x]) ∧
    ∀ msg, replies (R.transact now p.commands s).1 = .error msg → AllKept now s (R.transact now p.commands s).2

theorem spares_program {p : Plan} (hp : p.Spares R now s) : Spares R now s (p.program ns) := by
  intro e t hrun he
  obtain ⟨r, u, hsend⟩ : ∃ r u, Alone R now p.send s = (.ok r, u) := send_total p s
  have hanswer : Alone R now (p.program ns) s = Alone R now (Prog.ofExcept (p.answer ns r)) u := run_bind_ok hsend _
  rw [hanswer] at hrun
  cases r with
  | error msg =>
    cases hrun
    rcases hp.failed with hraised | ⟨hsent, hkept⟩
    · exact absurd (hraised msg) (he msg)
    · obtain ⟨hreplies, rfl⟩ := alone_send_error hsend hsent
      exact hkept msg hreplies
  | ok vs =>
    obtain ⟨hreplies, rfl⟩ := alone_send hsend
    cases hd : p.data vs with
    | error e' =>
      rw [Plan.answer, hd] at hrun
      cases hrun
      exact hp.answered vs _ hreplies hd
    | ok d =>
      rw [Plan.answer, hd] at hrun
      cases hrun

/-- A plan that makes an answer of any replies does not refuse. -/
theorem spares_sure {p : Plan} (herror : ∀ msg, p.onError msg = .redis msg) (hdata : ∀ vs e, p.data vs ≠ .error e) :
    p.Spares R now s := ⟨fun vs e _ h => absurd h (hdata vs e), Or.inl herror⟩

/-- A plan with one command is to be looked at where the reply is turned down. -/
theorem spares_one (hF : R.Refusals) {p : Plan} {c : KeyCmd} (hcs : p.commands = [(k, c)])
    (h : ∀ v e, (R.onKey c now (s k)).1 = .ok v → p.data [v] = .error e → TtlKept now (s k) (R.onKey c now (s k)).2) :
    p.Spares R now s := by
  have hown : ∀ x ∈ [(k, c)], x.1 = k := fun x hx => by rw [List.mem_singleton.mp hx]
  have hafter : (R.transact now [(k, c)] s).2 k = (R.onKey c now (s k)).2 := Server.atKey_self ..
  constructor
  · intro vs e hvs hd
    rw [hcs] at hvs ⊢
    obtain ⟨v, ws, hv, hws, rfl⟩ := replies_cons hvs
    cases hws
    refine allKept_transact hown ?_
    rw [hafter]
    exact h v e hv hd
  · refine Or.inr ⟨Or.inr ⟨_, hcs⟩, fun msg hmsg => ?_⟩
    rw [hcs] at hmsg ⊢
    refine allKept_transact hown ?_
    rw [hafter]
    cases hr : (R.onKey c now (s k)).1 with
    | error msg' => exact .of_eq (hF.refused c now (s k) msg' hr)
    | ok v =>
      have hreplies : replies (R.transact now [(k, c)] s).1 = .ok [v] := by
        show replies [(R.onKey c now (s k)).1] = _
        rw [hr]
        rfl
      rw [hreplies] at hmsg
      cases hmsg

theorem falsy_of_error {v d : Json} {x e : Exn} (h : (if !(first [v]).truthy then .error x else .ok d) = (.error e : Except Exn Json)) :
    v.truthy = false := by
  cases hv : v.truthy with
  | false => rfl
  | true =>
    have hfirst : (first [v]).truthy = true := hv
    rw [hfirst] at h
    cases h

/-- What is not there is not deleted. -/
theorem kept_delete (hT : R.Lifetimes) {e : Option Entry} {v : Json} (hv : (R.onKey .del now e).1 = .ok v)
    (hfalsy : v.truthy = false) : TtlKept now e (R.onKey .del now e).2 := by
  rw [hT.del] at hv ⊢
  cases hl : live now e with
  | none => exact .of_missing hl rfl
  | some x =>
    rw [hl] at hv
    cases hv
    cases hfalsy

theorem spares_delete (hT : R.Lifetimes) (hF : R.Refusals) {typePrefix key typeName : String} :
    Yields (Plan.Spares R now s) (deletePlan st ns typePrefix key typeName) := by
  refine Yields.bind fun k _ => yields_pure (spares_one hF rfl fun v e hv hd => ?_)
  exact kept_delete hT hv (falsy_of_error hd)

/-- A key that is touched and told to be missing was missing. -/
theorem spares_touch (hR : R.Lawful) (hT : R.Lifetimes) {typePrefix key typeName : String} {body : TtlSetRequest} :
    Yields (Plan.Spares R now s) (touchPlan st ns typePrefix key typeName body) := by
  refine Yields.bind fun k _ => yields_pure ⟨fun vs e hvs hd => ?_, Or.inl fun _ => rfl⟩
  dsimp only at hvs hd ⊢
  have hown : ∀ x ∈ [(k, KeyCmd.exists), lifetime k body.ttl, (k, KeyCmd.ttl)], x.1 = k := by
    intro x hx
    simp only [List.mem_cons, List.not_mem_nil, or_false] at hx
    rcases hx with rfl | rfl | rfl <;> rfl
  have hsame : (R.atKey k .exists now s).2 = s := by
    show s.set k (R.onKey .exists now (s k)).2 = s
    rw [hT.exists, Store.set_same]
  obtain ⟨v, ws, hv, hws, rfl⟩ := replies_cons hvs
  obtain ⟨w, us, hw, hus, rfl⟩ := replies_cons hws
  obtain ⟨u, ys, hu, hys, rfl⟩ := replies_cons hus
  cases hys
  have hw' : (R.onKey (lifetime k body.ttl).2 now ((R.atKey k .exists now s).2 k)).1 = .ok w := hw
  have hafter : (R.transact now [(k, .exists), lifetime k body.ttl, (k, .ttl)] s).2 k =
      (R.onKey (lifetime k body.ttl).2 now (s k)).2 := by
    show (R.atKey k .ttl now (R.atKey k (lifetime k body.ttl).2 now (R.atKey k .exists now s).2).2).2 k = _
    rw [Server.atKey_self, hR.reads .ttl rfl, Server.atKey_self, hsame]
  refine allKept_transact hown ?_
  rw [hafter]
  rw [hsame] at hw'
  have hv' : (R.onKey .exists now (s k)).1 = .ok v := hv
  rw [hT.exists] at hv'
  cases hl : live now (s k) with
  | none =>
    rcases onKey_lifetime hT k body.ttl now (s k) with ⟨msg, hmsg⟩ | ⟨-, b, hmiss⟩ | ⟨y, b, hy, -⟩
    · exact .of_eq (by rw [hmsg])
    · exact .of_eq (by rw [hmiss])
    · rw [hl] at hy
      cases hy
  | some x =>
    -- The key is there with its new deadline, and the last reply says so.
    have hset := lifetime_gives hT hl hw'
    have hu' : (R.onKey .ttl now ((R.atKey k (lifetime k body.ttl).2 now (R.atKey k .exists now s).2).2 k)).1 = .ok u := hu
    rw [Server.atKey_self, hsame, hset, hT.ttl] at hu'
    rw [hl, Option.isSome_some, if_pos rfl] at hv'
    cases hv'
    cases hu'
    have hthere : remaining now (some { x with deadline := deadlineFor now body.ttl }) ≠ -2 := by
      intro hmissing
      rw [remaining_missing, live_deadlineFor] at hmissing
      cases hmissing
    have hlast : (last [Json.int 1, w, .int (remaining now (some { x with deadline := deadlineFor now body.ttl }))]).isInt (-2) =
        false := by
      simpa [last, Json.isInt] using hthere
    have hfirst : (first [Json.int 1, w, .int (remaining now (some { x with deadline := deadlineFor now body.ttl }))]).truthy =
        true := rfl
    rw [hlast, hfirst] at hd
    cases hd

/-- A number that is not raised is as it was. -/
theorem spares_raise (hR : R.Lawful) (hT : R.Lifetimes) (hF : R.Refusals) {p : Plan} {c : KeyCmd} (hsend : p.sending = .pipeline)
    (hcs : p.commands = [(k, c), (k, .ttl)]) (hdata : ∀ vs e, p.data vs ≠ .error e) : p.Spares R now s := by
  refine ⟨fun vs e _ h => absurd h (hdata vs e), Or.inr ⟨Or.inl hsend, fun msg hmsg => ?_⟩⟩
  have hown : ∀ x ∈ [(k, c), (k, KeyCmd.ttl)], x.1 = k := by
    intro x hx
    rcases List.mem_pair.mp hx with rfl | rfl <;> rfl
  rw [hcs] at hmsg ⊢
  refine allKept_transact hown ?_
  have hafter : (R.transact now [(k, c), (k, .ttl)] s).2 k = (R.onKey c now (s k)).2 := by
    show (R.atKey k .ttl now (R.atKey k c now s).2).2 k = _
    rw [Server.atKey_self, hR.reads .ttl rfl, Server.atKey_self]
  rw [hafter]
  cases hr : (R.onKey c now (s k)).1 with
  | error msg' => exact .of_eq (hF.refused c now (s k) msg' hr)
  | ok v =>
    have hreplies : replies (R.transact now [(k, c), (k, .ttl)] s).1 =
        replies [.ok v, .ok (.int (remaining now ((R.atKey k c now s).2 k)))] := by
      show replies [(R.onKey c now (s k)).1, (R.onKey .ttl now ((R.atKey k c now s).2 k)).1] = _
      rw [hr, hT.ttl]
    rw [hreplies] at hmsg
    cases hmsg

/-- Scores that are given to members are taken, so that only the lifetime can be refused. -/
theorem spares_scores (hR : R.Lawful) (hT : R.Lifetimes) (hW : R.Writes) (hF : R.Refusals) {p : Plan} {ttl : Int}
    {members : List (String × Score)} (hsend : p.sending = .pipeline)
    (hcs : p.commands = [(k, .zadd members), lifetime k ttl, (k, .ttl)]) (hadds : (KeyCmd.zadd members).Adds)
    (hnan : ∀ x ∈ members, x.2 ≠ .nan) (hk : HasKind .zset (s k)) (hdata : ∀ vs e, p.data vs ≠ .error e) :
    p.Spares R now s := by
  refine ⟨fun vs e _ h => absurd h (hdata vs e), Or.inr ⟨Or.inl hsend, fun msg hmsg => ?_⟩⟩
  have hown : ∀ x ∈ [(k, KeyCmd.zadd members), lifetime k ttl, (k, KeyCmd.ttl)], x.1 = k := by
    intro x hx
    simp only [List.mem_cons, List.not_mem_nil, or_false] at hx
    rcases hx with rfl | rfl | rfl <;> rfl
  rw [hcs] at hmsg ⊢
  refine allKept_transact hown ?_
  obtain ⟨v, hv⟩ := hF.zadd members now (s k) hk hnan
  obtain ⟨x, hx, -⟩ := hW.adds (.zadd members) now (s k) v hadds hv
  have hstored : (R.atKey k (.zadd members) now s).2 k = (R.onKey (.zadd members) now (s k)).2 := Server.atKey_self ..
  have hafter : (R.transact now [(k, .zadd members), lifetime k ttl, (k, .ttl)] s).2 k =
      (R.onKey (lifetime k ttl).2 now (R.onKey (.zadd members) now (s k)).2).2 := by
    show (R.atKey k .ttl now (R.atKey k (lifetime k ttl).2 now (R.atKey k (.zadd members) now s).2).2).2 k = _
    rw [Server.atKey_self, hR.reads .ttl rfl, Server.atKey_self, hstored]
  rw [hafter]
  cases hw : (R.onKey (lifetime k ttl).2 now (R.onKey (.zadd members) now (s k)).2).1 with
  | error msg' =>
    rw [hF.refused _ now _ msg' hw]
    refine .of_live hx ?_
    rcases hW.keeps (.zadd members) now (s k) rfl with hnone | hkept
    · rw [hx] at hnone
      cases hnone
    · exact hkept
  | ok w =>
    have hreplies : replies (R.transact now [(k, .zadd members), lifetime k ttl, (k, .ttl)] s).1 = replies [.ok v, .ok w,
        .ok (.int (remaining now ((R.atKey k (lifetime k ttl).2 now (R.atKey k (.zadd members) now s).2).2 k)))] := by
      show replies [(R.onKey (.zadd members) now (s k)).1,
        (R.onKey (lifetime k ttl).2 now ((R.atKey k (.zadd members) now s).2 k)).1,
        (R.onKey .ttl now ((R.atKey k (lifetime k ttl).2 now (R.atKey k (.zadd members) now s).2).2 k)).1] = _
      rw [hv, hstored, hw, hT.ttl]
    rw [hreplies] at hmsg
    cases hmsg

end Refused

/-! ### Refused requests -/

section Requests
variable {R : Server} {st : Settings} {ns : String} {now : Nat} {s t : Store}

theorem isList_of_kind {e : Option Entry} (h : HasKind .list e) (hsolid : Solid e) : IsList e := by
  cases e with
  | none => exact Or.inl rfl
  | some x =>
    have hkind := h x rfl
    have hx := hsolid x rfl
    obtain ⟨v, d⟩ := x
    cases v <;> cases hkind
    exact Or.inr ⟨_, d, hx, rfl⟩

/-- A pop that is told to be empty has found the list empty. -/
theorem pop_nothing (hL : R.Lists) {e : Option Entry} (he : IsList e) (direction : Side) {v : Json}
    (hv : (R.onKey (popCmd direction) now e).1 = .ok v) (hnone : v.isNone = true) : (R.onKey (popCmd direction) now e).2 = e := by
  rcases onKey_pop hL now he direction with ⟨-, hpop⟩ | ⟨value, rest, -, hpop⟩
  · rw [hpop]
  · rw [hpop] at hv
    cases hv
    cases hnone

theorem spares_taken (hF : R.Refusals) (hsolid : ∀ k, Solid (s k)) {p : Plan} {k : String} {c : KeyCmd} {refusal : Exn}
    {data : List Json → Json} (hcs : p.commands = [(k, c)]) (hc : c.takes = true)
    (hdata : p.data = fun vs => if !(first vs).truthy then .error refusal else .ok (data vs)) : p.Spares R now s := by
  refine spares_one hF hcs fun v e hv hd => .of_eq ?_
  rw [hdata] at hd
  exact hF.takes c now (s k) v hc (hsolid k) hv (falsy_of_error hd)

/-- A key that is not set because it is there is left alone. -/
theorem storingNx_turned (hW : R.Writes) {ttl : Int} {value : String} {e : Option Entry} {v : Json}
    (h : (R.onKey (storingNx ttl value) now e).1 = .ok v) (hv : v.truthy = false) :
    (R.onKey (storingNx ttl value) now e).2 = e := by
  have hset : ∀ ex : Option Int, (∀ t, ex = some t → 0 < t) → (R.onKey (.set value ex true) now e).1 = .ok v →
      (R.onKey (.set value ex true) now e).2 = e := by
    intro ex hex hr
    cases hl : live now e with
    | none =>
      rcases hW.setNx value ex now e hl hex with hset | ⟨msg, hmsg⟩
      · rw [hset] at hr
        cases hr
        cases hv
      · rw [hmsg]
    | some x =>
      rcases hW.setNxThere value ex now e (by rw [hl]; rfl) with hset | ⟨msg, hmsg⟩
      · rw [hset]
      · rw [hmsg]
  unfold storingNx at *
  by_cases httl : 0 < ttl
  · rw [if_pos httl] at h ⊢
    refine hset (some ttl) (fun t ht => ?_) h
    cases ht
    exact httl
  · rw [if_neg httl] at h ⊢
    exact hset none (fun t ht => by cases ht) h

theorem ne_nan_of_finite {x : Score} (h : x.isfinite = true) : x ≠ .nan := by
  rintro rfl
  cases h

/-- The plans of the writes. -/
theorem Op.spares (hR : R.Lawful) (hT : R.Lifetimes) (hW : R.Writes) (hL : R.Lists) (hF : R.Refusals)
    (hs : s.Typed (StoredAs st.engine)) (hsolid : ∀ k, Solid (s k)) {o : Op} (hvalid : o.valid = true) (huse : o.use = .writes) :
    (o.plan st ns).All (Plan.Spares R now s) := by
  have hone : ∀ {β : Type} {operation : String} {x : Except Exn β} {q : β → Plan}, (∀ b, x = .ok b → (q b).Spares R now s) →
      Planned.All (Plan.Spares R now s) (some (operation, x >>= fun b => pure (q b))) :=
    fun h => Planned.all_some (Yields.bind fun b hb => yields_pure (h b hb))
  have hchecked : ∀ {β γ : Type} {operation : String} {y : Except Exn γ} {x : Except Exn β} {q : γ → β → Plan},
      (∀ c b, y = .ok c → x = .ok b → (q c b).Spares R now s) →
      Planned.All (Plan.Spares R now s) (some (operation, y >>= fun c => x >>= fun b => pure (q c b))) :=
    fun h => Planned.all_some (Yields.bind fun c hc => Yields.bind fun b hb => yields_pure (h c b hc hb))
  cases o with
  | kv o => cases o with
    | batchSetKv body => exact hchecked fun _ _ _ _ => spares_sure (fun _ => rfl) fun _ _ h => by cases h
    | setKv key body => exact hchecked fun _ _ _ _ => spares_sure (fun _ => rfl) fun _ _ h => by cases h
    | deleteKv key => exact Planned.all_some (spares_delete hT hF)
    | incrKv key body => exact hone fun k _ => spares_raise hR hT hF rfl rfl fun _ _ h => by cases h
    | touchKv key body => exact Planned.all_some (spares_touch hR hT)
    | setKvNx key body =>
      refine hone fun k _ => spares_one hF rfl fun v e hv hd => .of_eq ?_
      exact storingNx_turned hW hv (falsy_of_error hd)
    | _ => cases huse
  | map o => cases o with
    | batchSetMap body => exact hchecked fun _ _ _ _ => spares_sure (fun _ => rfl) fun _ _ h => by cases h
    | setMap key body => exact hchecked fun _ _ _ _ => spares_sure (fun _ => rfl) fun _ _ h => by cases h
    | touchMap key body => exact Planned.all_some (spares_touch hR hT)
    | setMapField key field body => exact hchecked fun _ _ _ _ => spares_sure (fun _ => rfl) fun _ _ h => by cases h
    | deleteMap key => exact Planned.all_some (spares_delete hT hF)
    | deleteMapField key field => exact hone fun k _ => spares_taken hF hsolid rfl rfl rfl
    | _ => cases huse
  | queue o => cases o with
    | batchPushQueue key body => exact Planned.all_none
    | pushQueue key body => exact Planned.all_none
    | popQueue key direction =>
      refine hone fun k hk => spares_one hF rfl fun v e hv hd => .of_eq ?_
      have hlist : IsList (s k) := isList_of_kind (hs .list k (storedAs_build rfl hk)) (hsolid k)
      refine pop_nothing hL hlist direction hv ?_
      cases hnone : v.isNone with
      | true => rfl
      | false =>
        have hfirst : (first [v]).isNone = false := hnone
        dsimp only at hd
        rw [hfirst] at hd
        cases hd
    | deleteQueue key => exact Planned.all_some (spares_delete hT hF)
    | touchQueue key body => exact Planned.all_some (spares_touch hR hT)
    | trimQueue key body => exact hone fun _ _ => spares_sure (fun _ => rfl) fun _ _ h => by cases h
    | _ => cases huse
  | group o => cases o with
    | batchAddGroup body => exact hchecked fun _ _ _ _ => spares_sure (fun _ => rfl) fun _ _ h => by cases h
    | addGroup key body => exact hchecked fun _ _ _ _ => spares_sure (fun _ => rfl) fun _ _ h => by cases h
    | deleteGroup key => exact Planned.all_some (spares_delete hT hF)
    | removeGroup key member => exact hone fun k _ => spares_taken hF hsolid rfl rfl rfl
    | touchGroup key body => exact Planned.all_some (spares_touch hR hT)
    | _ => cases huse
  | rank o => cases o with
    | batchAddRank key body =>
      have hvalid' : body.valid = true := hvalid
      simp only [RankBatchAddRequest.valid, batchSize, Bool.and_eq_true, decide_eq_true_eq] at hvalid'
      refine hchecked fun _ k hc hk => ?_
      have hzset : HasKind .zset (s k) := hs .zset k (storedAs_build rfl hk)
      refine spares_scores hR hT hW hF rfl rfl (dict_adds (List.ne_nil_of_length_pos hvalid'.1.1.1)) (fun x hx => ?_) hzset fun _ _ h => by cases h
      obtain ⟨u, hu⟩ := succeeds_forM.mp ⟨_, hc⟩ x (Dict.mem_ofList hx)
      obtain ⟨_, -, hfinite⟩ := bind_ok.mp hu
      refine ne_nan_of_finite ?_
      cases hx' : x.2.isfinite with
      | true => rfl
      | false =>
        rw [hx'] at hfinite
        cases hfinite
    | addRank key body =>
      refine Planned.all_some (Yields.bind fun _ _ => ?_)
      cases hfinite : body.score.isfinite
      · exact yields_throw
      · refine Yields.bind fun k hk => yields_pure ?_
        have hzset : HasKind .zset (s k) := hs .zset k (storedAs_build rfl hk)
        refine spares_scores hR hT hW hF rfl rfl ⟨List.cons_ne_nil _ _, List.nodup_singleton _⟩ (fun x hx => ?_) hzset
          fun _ _ h => by cases h
        rw [List.mem_singleton.mp hx]
        exact ne_nan_of_finite hfinite
    | deleteRank key => exact Planned.all_some (spares_delete hT hF)
    | removeRank key member => exact hone fun k _ => spares_taken hF hsolid rfl rfl rfl
    | incrRank key body =>
      refine Planned.all_some (Yields.bind fun _ _ => ?_)
      cases body.delta.isfinite
      · exact yields_throw
      · exact Yields.bind fun k _ => yields_pure (spares_raise hR hT hF rfl rfl fun _ _ h => by cases h)
    | touchRank key body => exact Planned.all_some (spares_touch hR hT)
    | popRank key max => exact hone fun k _ => spares_taken hF hsolid rfl rfl rfl
    | _ => cases huse
  | event o => cases o with
    | batchPublishEvent key body => exact hchecked fun _ _ _ _ => spares_sure (fun _ => rfl) fun _ _ h => by cases h
    | publishEvent key body => exact hchecked fun _ _ _ _ => spares_sure (fun _ => rfl) fun _ _ h => by cases h
    | deleteEvent key => exact Planned.all_some (spares_delete hT hF)
    | touchEvent key body => exact Planned.all_some (spares_touch hR hT)
    | _ => cases huse
  | pubsub o => exact Planned.all_none

end Requests

section Endpoints
variable {R : Server} {st : Settings} {ns : String} {now : Nat} {s t : Store}

theorem calm_reads (hR : R.Lawful) {k : String} {c : KeyCmd} (hc : c.reads = true) : Calm R now (.redis (.at k c)) :=
  calm_gentle hR (u := .reads) (Or.inl rfl) hc

/-- The requests that only read, or keep books, change no lifetime whatever they are answered. -/
theorem calm_reader (hR : R.Lawful) (hW : R.Writes) (hF : R.Refusals) {client : ClientInfo} {o : Op} (huse : o.use ≠ .writes) :
    (o.handle st client ns).Calls (Calm R now) := by
  have hwithin : (o.handle st client ns).Calls (Within st client ns o.use) := o.within ns
  have hgentle : ∀ u : Use, u.gentle → o.use = u → (o.handle st client ns).Calls (Calm R now) := by
    intro u hu ho
    rw [ho] at hwithin
    refine hwithin.mono fun c hc => ?_
    cases c with
    | redis c => exact calm_gentle hR hu hc.2.2
    | setPendingEvent event code => exact calm_pending event code
    | fireMetric reason => exact calm_metric hW hF reason
  cases ho : o.use with
  | writes => exact absurd ho huse
  | reads => exact hgentle .reads (Or.inl rfl) ho
  | books => exact hgentle .books (Or.inr rfl) ho
  | creates =>
    obtain ⟨key, body, rfl⟩ := use_creates ho
    refine (createGroup_calls st client ns key body).mono fun c hc => ?_
    cases c with
    | redis c =>
      obtain ⟨k, -, rfl⟩ := hc
      intro s k'
      by_cases hk : k' = k
      · have hcreated : Tame (Eq now) (s k') ((R.exec (.at k (.xgroupCreate body.group "0" true)) now s).2 k') :=
          exec_create hR rfl s k' hk
        rcases hcreated with hsame | ⟨⟨n, rfl, hl⟩, gs, hnew⟩
        · exact .of_same hsame
        · refine .of_missing hl ?_
          show deadlineOf now ((R.exec (.at k (.xgroupCreate body.group "0" true)) now s).2 k') = none
          rw [hnew]
          rfl
      · exact .of_eq (Server.atKey_ne hk)
    | setPendingEvent event code => exact calm_pending event code
    | fireMetric reason => exact calm_metric hW hF reason

/-- The script of a push that is told to be full has left the list alone. -/
theorem push_full (hL : R.Lists) {q : QueueOp} {p : Push} (hq : q.push st = some p) {e : Option Entry} (he : IsList e) {v : Json}
    (hv : (OnEntry R now p.body e).1 = .ok v) (hfull : v.isInt (-1) = true) : (OnEntry R now p.body e).2 = e := by
  have hother : ∀ {n m : Nat}, (.ok (.int (n + m)) : Reply) = .ok v → False := by
    intro n m h
    cases h
    have heq : (n : Int) + m = -1 := by simpa [Json.isInt] using hfull
    omega
  cases q with
  | pushQueue key body =>
    cases hq
    have hrun : OnEntry R now (singlePushLua body.direction body.value st.defaults.maxListLength) e = _ :=
      run_singlePushLua hL he body.direction body.value st.defaults.maxListLength
    split at hrun
    · rw [hrun]
    · rw [hrun] at hv
      exact (hother (m := 1) hv).elim
  | batchPushQueue key body =>
    cases hq
    have hrun : OnEntry R now (batchPushLua body.direction st.defaults.maxListLength body.values) e = _ :=
      run_batchPushLua hL he body.direction body.values st.defaults.maxListLength
    split at hrun
    · rw [hrun]
    · rw [hrun] at hv
      exact (hother hv).elim
  | _ => cases hq

theorem spares_push (hL : R.Lists) {q : QueueOp} {p : Push} (hq : q.push st = some p) (hs : s.Typed (StoredAs st.engine))
    (hsolid : ∀ k, Solid (s k)) : Spares R now s (p.program st ns) := by
  refine spares_ofExcept fun _ _ => spares_ofExcept fun k hk => ?_
  have hlist : IsList (s k) := isList_of_kind (hs .list k (storedAs_build rfl hk)) (hsolid k)
  intro e t hrun he
  rcases alone_bind_error hrun with hscript | ⟨result, u, hscript, hpushed⟩
  · obtain ⟨msg, rfl⟩ := raised (raises_script k p.body) hscript
    exact absurd rfl (he msg)
  · obtain ⟨hentry, helse⟩ := alone_script hscript
    cases hfull : result.isInt (-1) with
    | true =>
      rw [hfull] at hpushed
      cases hpushed
      have hsame := push_full hL hq hlist (congrArg Prod.fst hentry) hfull
      rw [hentry] at hsame
      intro k'
      by_cases hkk : k' = k
      · subst hkk
        exact .of_eq hsame
      · exact .of_eq (helse k' hkk)
    | false =>
      rw [hfull] at hpushed
      obtain ⟨msg, rfl⟩ := raised (raises_bind (ends_pipeline _) fun _ => raises_pure _) hpushed
      exact absurd rfl (he msg)

/-! ### The admin plane -/

theorem raises_deleteBatches (bs : List (List String)) (deleted : Int) : Raises (deleteBatches bs deleted) := by
  induction bs generalizing deleted with
  | nil => exact raises_pure deleted
  | cons batch bs ih => exact raises_bind (fun r _ => raises_reply r) fun n => ih _

/-- What the admin endpoints refuse. -/
theorem AdminOp.spares (hR : R.Lawful) (hT : R.Lifetimes) (hW : R.Writes) (hF : R.Refusals) {client : ClientInfo} (o : AdminOp) :
    Spares R now s (o.handle st client) := by
  have hreads : ∀ {k : String} {c : KeyCmd}, c.reads = true → (redis k c).Calls (Calm R now) := fun hc => calls_redis (calm_reads hR hc)
  cases o with
  | listKeys ns typeName pattern scan =>
    refine spares_calm ?_
    show (Redgw.listKeys st client ns typeName pattern scan).Calls _
    unfold Redgw.listKeys
    cases filterOr ns with
    | none =>
      refine Calls.ofExcept_bind fun _ _ => ?_
      trivial
    | some ns =>
      refine Calls.ofExcept_bind fun _ _ => calls_guard (fun _ _ => calm_pending _ _) (fun _ => calm_metric hW hF _) fun _ => ?_
      refine Calls.ofExcept_bind fun _ _ => ?_
      trivial
  | keyInfo ns typeName key =>
    refine spares_access hW hF (spares_ofExcept fun p _ => spares_ofExcept fun k _ => spares_calm ?_)
    refine Calls.bind (hreads rfl) fun keyType => ?_
    split
    · trivial
    · refine Calls.bind (hreads rfl) fun _ => Calls.bind (hreads rfl) fun _ => Calls.bind ?_ fun _ => trivial
      unfold sizeInfo
      repeat' split
      all_goals first | trivial | exact Calls.bind (hreads rfl) fun _ => trivial
  | setTtl ns typeName key body =>
    refine spares_admin hW hF (spares_ofExcept fun p _ => spares_ofExcept fun k _ => spares_redis fun v hv e t hrun he => ?_)
    rw [show (R.atKey k .exists now s).2 = s from (hT.exists now (s k) ▸ Store.set_same s k : s.set k _ = s)] at hrun
    cases hthere : v.truthy with
    | false =>
      rw [hthere] at hrun
      cases hrun
      exact .refl now s
    | true =>
      rw [hthere] at hrun
      obtain ⟨msg, rfl⟩ := raised (raises_bind (raises_redis k _) fun _ => raises_bind (raises_redis k _) fun _ => raises_pure _) hrun
      exact absurd rfl (he msg)
  | bulkDeleteKeys ns typeName pattern dryRun scanIter =>
    refine spares_admin hW hF (spares_ofExcept fun _ _ => spares_ofExcept fun _ _ => ?_)
    dsimp only
    split
    · exact spares_calm trivial
    · exact spares_raises (raises_bind (raises_deleteBatches _ _) fun _ => raises_pure _)
  | deleteKey ns typeName key =>
    refine spares_admin hW hF (spares_ofExcept fun p _ => spares_ofExcept fun k _ => spares_redis fun v hv e t hrun he => ?_)
    cases hdeleted : v.truthy with
    | false =>
      rw [hdeleted] at hrun
      cases hrun
      exact allKept_atKey (kept_delete hT hv hdeleted)
    | true =>
      rw [hdeleted] at hrun
      cases hrun
  | getStats limit memory keys => exact spares_calm trivial
  | adminAuditOrigin ns typeName key loads =>
    refine spares_admin hW hF (spares_ofExcept fun p _ => spares_ofExcept fun k _ => spares_calm ?_)
    refine Calls.bind (hreads rfl) fun raw => ?_
    cases raw.isNone
    · exact Calls.bind (hreads rfl) fun _ => trivial
    · trivial

/-- What the data plane refuses. -/
theorem data_spares (hR : R.Lawful) (hT : R.Lifetimes) (hW : R.Writes) (hL : R.Lists) (hF : R.Refusals)
    (hs : s.Typed (StoredAs st.engine)) (hsolid : ∀ k, Solid (s k)) {client : ClientInfo} {o : Op} (hvalid : o.valid = true) :
    Spares R now s (o.handle st client ns) := by
  by_cases huse : o.use = .writes
  · by_cases hnone : o.plan st ns = none
    · cases o with
      | kv q => cases q <;> first | exact absurd hnone (Option.some_ne_none _) | cases huse
      | map q => cases q <;> exact absurd hnone (Option.some_ne_none _)
      | group q => cases q <;> first | exact absurd hnone (Option.some_ne_none _) | cases huse
      | rank q => cases q <;> exact absurd hnone (Option.some_ne_none _)
      | event q => cases q <;> first | exact absurd hnone (Option.some_ne_none _) | cases huse
      | queue q =>
        obtain ⟨p, hq⟩ : ∃ p, q.push st = some p := by
          cases q <;> first | exact ⟨_, rfl⟩ | exact absurd hnone (Option.some_ne_none _)
        have hpush : (Op.queue q).handle st client ns = (requireWrite client ns).bind fun _ => p.program st ns := QueueOp.pushes hq
        rw [hpush]
        exact spares_access hW hF (spares_push hL hq hs hsolid)
      | pubsub q =>
        cases q with
        | publishMessage channel body =>
          refine spares_access hW hF (spares_ofExcept fun _ _ => spares_ofExcept fun _ _ => spares_ofExcept fun _ _ => ?_)
          exact spares_calm (Calls.bind (calls_publish fun s => .refl now s) fun _ => trivial)
    · obtain ⟨⟨operation, x⟩, hx⟩ := Option.ne_none_iff_exists'.mp hnone
      rw [o.follows operation x hx]
      refine spares_access hW hF (spares_ofExcept fun p hp => spares_program ?_)
      exact Op.spares hR hT hW hL hF hs hsolid hvalid huse operation x hx p hp
  · exact spares_calm (calm_reader hR hW hF huse)

/-- A request to either plane that is refused changes no lifetime. -/
theorem endpoint_spares (hR : R.Lawful) (hT : R.Lifetimes) (hW : R.Writes) (hL : R.Lists) (hF : R.Refusals)
    (hs : s.Typed (StoredAs st.engine)) (hsolid : ∀ k, Solid (s k)) (client : Option ClientInfo) (x : Endpoint) :
    Spares R now s (x.program st client) := by
  have hauth : ∀ {f : ClientInfo → Handler Json}, Spares R now s ((verifyApiKey none).bind f) := fun {f} =>
    spares_calm ⟨calm_pending _ _, fun _ => ⟨calm_metric hW hF _, fun _ => trivial⟩⟩
  have hinvalid : Spares R now s (Prog.raise .unprocessable : Handler Json) := spares_calm trivial
  cases client with
  | none => cases x <;> exact hauth
  | some c =>
    cases x with
    | data ns o =>
      cases hv : o.valid with
      | false => simpa [Endpoint.program, endpoint, verifyApiKey, hv] using hinvalid
      | true => simpa [Endpoint.program, endpoint, verifyApiKey, hv] using data_spares hR hT hW hL hF hs hsolid hv
    | admin o =>
      cases hv : o.valid with
      | false => simpa [Endpoint.program, adminEndpoint, verifyApiKey, hv] using hinvalid
      | true => simpa [Endpoint.program, adminEndpoint, verifyApiKey, hv] using AdminOp.spares hR hT hW hF o

end Endpoints

end Redgw
