import Redgw.Redis.Kinds

/-! # Stores with typed keys

A typing `T` says which keys are for values of which type. Commands that fit the types of their keys keep
a store in accord with the typing, and in such a store none of them meets a value of another type. -/

namespace Redgw.Redis

/-- The values under typed keys have the types of the keys. -/
def Store.Typed (T : Kind → String → Prop) (s : Store) : Prop := ∀ κ k, T κ k → HasKind κ (s k)

/-- The command is for values of type `κ`, or for those of any type. -/
def KeyCmd.For (κ : Kind) (c : KeyCmd) : Prop := c.kind = none ∨ c.kind = some κ

/-- Each part of the command is for the type of its key. -/
def Cmd.Fits (T : Kind → String → Prop) : Cmd → Prop
  | .at k c => ∃ κ, T κ k ∧ c.For κ
  | .eval k body => ∃ κ, T κ k ∧ body.Calls (KeyCmd.For κ)
  | .gather g ks => ∀ k ∈ ks, T g.kind k
  | .del ks => ∀ k ∈ ks, ∃ κ, T κ k
  | .publish _ _ => True
  | .multi cs => ∀ x ∈ cs, ∃ κ, T κ x.1 ∧ x.2.For κ

/-- At time `now` some part of the command meets a value of another type. -/
def Cmd.Mistyped (R : Server) (now : Nat) (s : Store) : Cmd → Prop
  | .at k c => (R.onKey c now (s k)).1 = .error wrongType
  | .eval k body => ∃ x ∈ body.trace (fun c now e => R.onKey c now e) (fun _ => now) (s k),
    (R.onKey x.call x.env x.before).1 = .error wrongType
  | .gather g ks => R.gather g now (ks.map s) = .error wrongType
  | .del ks => .error wrongType ∈ (R.transact now (ks.map fun k => (k, .del)) s).1
  | .publish _ _ => False
  | .multi cs => .error wrongType ∈ (R.transact now cs s).1

theorem Store.empty_typed (T : Kind → String → Prop) : Store.empty.Typed T := fun _ _ _ _ hx => by cases hx

/-- A key has one type at most. -/
def OneType (T : Kind → String → Prop) : Prop := ∀ κ κ' k, T κ k → T κ' k → κ = κ'

theorem Store.Typed.set {T : Kind → String → Prop} {s : Store} (hs : s.Typed T) (hT : OneType T) {κ : Kind} {k : String}
    (hk : T κ k) {e : Option Entry} (he : HasKind κ e) : (s.set k e).Typed T := by
  intro κ' k' hk'
  by_cases h : k' = k
  · subst h
    rw [Store.set_self, hT κ' κ k' hk' hk]
    exact he
  · rw [Store.set_ne _ _ h]
    exact hs κ' k' hk'

namespace Server.Typed

variable {R : Server} {T : Kind → String → Prop} {now : Nat} {s : Store}

theorem onKey_keeps (hR : R.Typed) {κ : Kind} {c : KeyCmd} (hc : c.For κ) {e : Option Entry} (he : HasKind κ e) :
    HasKind κ (R.onKey c now e).2 := by
  rcases hc with hc | hc
  · exact (hR.general c now e hc).2 κ he
  · exact hR.keeps c κ now e hc he

theorem onKey_replies (hR : R.Typed) {κ : Kind} {c : KeyCmd} (hc : c.For κ) {e : Option Entry} (he : HasKind κ e) :
    (R.onKey c now e).1 ≠ .error wrongType := by
  rcases hc with hc | hc
  · exact (hR.general c now e hc).1
  · exact hR.replies c κ now e hc he

theorem atKey_keeps (hR : R.Typed) (hT : OneType T) (hs : s.Typed T) {κ : Kind} {k : String} (hk : T κ k) {c : KeyCmd}
    (hc : c.For κ) : (R.atKey k c now s).2.Typed T :=
  hs.set hT hk (hR.onKey_keeps hc (hs κ k hk))

/-- The commands of a transaction meet no value of another type, one after another. -/
theorem transact_keeps (hR : R.Typed) (hT : OneType T) {cs : List (String × KeyCmd)}
    (hcs : ∀ x ∈ cs, ∃ κ, T κ x.1 ∧ x.2.For κ) (hs : s.Typed T) :
    .error wrongType ∉ (R.transact now cs s).1 ∧ (R.transact now cs s).2.Typed T := by
  induction cs generalizing s with
  | nil => exact ⟨List.not_mem_nil, hs⟩
  | cons x cs ih =>
    obtain ⟨κ, hk, hc⟩ := hcs x List.mem_cons_self
    obtain ⟨hrest, hkeep⟩ := ih (fun y hy => hcs y (List.mem_cons_of_mem _ hy)) (hR.atKey_keeps hT hs hk hc)
    refine ⟨fun hmem => ?_, hkeep⟩
    rcases List.mem_cons.mp hmem with h | h
    · exact hR.onKey_replies hc (hs κ x.1 hk) h.symm
    · exact hrest h

/-- Every command of a script meets a value of the type of the key. -/
theorem trace_typed (hR : R.Typed) {κ : Kind} {body : Script} (hb : body.Calls (KeyCmd.For κ)) {e : Option Entry}
    (he : HasKind κ e) : (∀ x ∈ body.trace (fun c now e => R.onKey c now e) (fun _ => now) e,
      x.call.For κ ∧ HasKind κ x.before) ∧ HasKind κ (body.run (fun c now e => R.onKey c now e) (fun _ => now) e).2 := by
  induction body generalizing e with
  | pure a => exact ⟨fun _ hx => (by cases hx), he⟩
  | raise err => exact ⟨fun _ hx => (by cases hx), he⟩
  | call c k ih =>
    have hnext : HasKind κ (R.onKey c now e).2 := hR.onKey_keeps hb.1 he
    obtain ⟨htrace, hend⟩ := ih _ (hb.2 (R.onKey c now e).1) hnext
    refine ⟨fun x hx => ?_, hend⟩
    rcases List.mem_cons.mp hx with rfl | hx
    · exact ⟨hb.1, he⟩
    · exact htrace x hx

theorem dels_fit {ks : List String} (hks : ∀ k ∈ ks, ∃ κ, T κ k) :
    ∀ x ∈ ks.map fun k => (k, KeyCmd.del), ∃ κ, T κ x.1 ∧ x.2.For κ := by
  intro x hx
  obtain ⟨k, hk, rfl⟩ := List.mem_map.mp hx
  obtain ⟨κ, hκ⟩ := hks k hk
  exact ⟨κ, hκ, Or.inl rfl⟩

theorem exec_keeps (hR : R.Typed) (hT : OneType T) {c : Cmd} (hc : c.Fits T) (hs : s.Typed T) :
    (R.exec c now s).2.Typed T := by
  cases c with
  | «at» k c =>
    obtain ⟨κ, hk, hc⟩ := hc
    exact hR.atKey_keeps hT hs hk hc
  | eval k body =>
    obtain ⟨κ, hk, hb⟩ := hc
    exact hs.set hT hk (hR.trace_typed hb (hs κ k hk)).2
  | gather g ks => exact hs
  | del ks => exact (hR.transact_keeps hT (dels_fit hc) hs).2
  | publish channel message => exact hs
  | multi cs => exact (hR.transact_keeps hT hc hs).2

theorem not_mistyped (hR : R.Typed) (hT : OneType T) {c : Cmd} (hc : c.Fits T) (hs : s.Typed T) :
    ¬c.Mistyped R now s := by
  cases c with
  | «at» k c =>
    obtain ⟨κ, hk, hc⟩ := hc
    exact hR.onKey_replies hc (hs κ k hk)
  | eval k body =>
    obtain ⟨κ, hk, hb⟩ := hc
    rintro ⟨x, hx, hreply⟩
    obtain ⟨hfor, hbefore⟩ := (hR.trace_typed hb (hs κ k hk)).1 x hx
    exact hR.onKey_replies hfor hbefore hreply
  | gather g ks =>
    refine hR.gather g now _ fun e he => ?_
    obtain ⟨k, hk, rfl⟩ := List.mem_map.mp he
    exact hs g.kind k (hc k hk)
  | del ks => exact (hR.transact_keeps hT (dels_fit hc) hs).1
  | publish channel message => exact id
  | multi cs => exact (hR.transact_keeps hT hc hs).1

end Server.Typed

end Redgw.Redis
