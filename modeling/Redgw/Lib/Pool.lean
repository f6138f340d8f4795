import Mathlib.Data.List.Forall2
import Redgw.Lib.Prog
import Redgw.Lib.Runs

/-! # Programs that run side by side

Requests start programs that share one state. A step starts a program or answers the next call of one
of them, so that the calls of different programs come in any order. -/

/-- The shared state, and the programs in the order in which they were started. -/
structure Pool (C : Type) (R : C → Type) (ε α S : Type) where
  state : S
  programs : List (Prog C R ε α)

namespace Pool

variable {C : Type} {R : C → Type} {ε α χ S Q : Type}

inductive Act (Q χ : Type)
  | start (q : Q)
  | resume (i : Nat) (x : χ)

/-- What the `i`th program does when it is resumed. A program that has ended does nothing any more. -/
def resume (exec : (c : C) → χ → S → R c × S) (t : Pool C R ε α S) (i : Nat) (x : χ) : Option (Pool C R ε α S) :=
  match t.programs[i]? with
  | some (.call c k) => some ⟨(exec c x t.state).2, t.programs.set i (k (exec c x t.state).1)⟩
  | _ => none

def step (exec : (c : C) → χ → S → R c × S) (body : Q → Prog C R ε α) (t : Pool C R ε α S) :
    Act Q χ → Option (Pool C R ε α S)
  | .start q => some ⟨t.state, t.programs ++ [body q]⟩
  | .resume i x => t.resume exec i x

variable {exec : (c : C) → χ → S → R c × S} {body : Q → Prog C R ε α}

theorem resume_eq_some {t u : Pool C R ε α S} {i : Nat} {x : χ} : t.resume exec i x = some u ↔
    ∃ c k, t.programs[i]? = some (.call c k) ∧ (exec c x t.state).2 = u.state ∧
      t.programs.set i (k (exec c x t.state).1) = u.programs := by
  unfold resume
  constructor
  · intro h
    split at h
    · rename_i c k hi
      cases h
      exact ⟨c, k, hi, rfl, rfl⟩
    · cases h
  · rintro ⟨c, k, hi, hs, hp⟩
    obtain ⟨state, programs⟩ := u
    cases hs
    cases hp
    rw [hi]

/-- One program has moved on. -/
theorem getElem?_set_cases {A : Type} {xs : List A} {i j : Nat} {a b : A} (h : (xs.set i a)[j]? = some b) :
    j = i ∧ b = a ∨ j ≠ i ∧ xs[j]? = some b := by
  by_cases hj : j = i
  · subst hj
    obtain ⟨hlt, hget⟩ := List.getElem?_eq_some_iff.mp h
    rw [List.getElem_set_self] at hget
    exact Or.inl ⟨rfl, hget.symm⟩
  · rw [List.getElem?_set_ne (Ne.symm hj)] at h
    exact Or.inr ⟨hj, h⟩

/-- The state satisfies `I`, and the programs issue calls of `P` only as long as the replies satisfy `G`. -/
structure Inv (G : (c : C) → R c → Prop) (P : C → Prop) (I : S → Prop) (t : Pool C R ε α S) : Prop where
  state : I t.state
  programs : ∀ p ∈ t.programs, p.CallsOn G P

section Inv
variable {G : (c : C) → R c → Prop} {P : C → Prop} {I : S → Prop}

theorem Inv.step (keep : ∀ c, P c → ∀ x s, I s → I (exec c x s).2) (good : ∀ c, P c → ∀ x s, I s → G c (exec c x s).1)
    {a : Act Q χ} (hbody : ∀ q, a = .start q → (body q).CallsOn G P) {t u : Pool C R ε α S}
    (h : t.step exec body a = some u) (ht : t.Inv G P I) : u.Inv G P I := by
  cases a with
  | start q =>
    cases h
    refine ⟨ht.state, fun p hp => ?_⟩
    rcases List.mem_append.mp hp with hp | hp
    · exact ht.programs p hp
    · rw [List.mem_singleton.mp hp]
      exact hbody q rfl
  | resume i x =>
    obtain ⟨c, k, hi, hstate, hprograms⟩ := resume_eq_some.mp h
    obtain ⟨hc, hk⟩ := ht.programs _ (List.mem_of_getElem? hi)
    refine ⟨hstate ▸ keep c hc x t.state ht.state, fun p hp => ?_⟩
    rw [← hprograms] at hp
    rcases List.mem_or_eq_of_mem_set hp with hp | rfl
    · exact ht.programs p hp
    · exact hk _ (good c hc x t.state ht.state)

/-- What holds at the start and is kept by every call of `P` holds whenever programs with such calls run
    side by side. -/
theorem inv_run (keep : ∀ c, P c → ∀ x s, I s → I (exec c x s).2) (good : ∀ c, P c → ∀ x s, I s → G c (exec c x s).1)
    {acts : List (Act Q χ)} (hbody : ∀ q, .start q ∈ acts → (body q).CallsOn G P) {s : S} (hs : I s)
    {t : Pool C R ε α S} (h : Runs.run (step exec body) ⟨s, []⟩ acts = some t) : t.Inv G P I := by
  have hstarted : ∀ a ∈ acts, ∀ q, a = .start q → (body q).CallsOn G P := by
    intro a ha q hq
    exact hbody q (hq ▸ ha)
  refine Runs.run_inv_of (fun _ _ _ ha hstep hinv => hinv.step keep good ha hstep) hstarted h ⟨hs, fun p hp => ?_⟩
  cases hp

end Inv

/-! ### The calls of each program -/

/-- The state with the calls that have been issued, in order. -/
def logged (exec : (c : C) → χ → S → R c × S) (c : C) (x : χ) (t : S × List (Prog.Step C χ S)) :
    R c × (S × List (Prog.Step C χ S)) :=
  ((exec c x t.1).1, (exec c x t.1).2, t.2 ++ [⟨c, x, t.1⟩])

/-- The requests that a list of actions starts. -/
def started (acts : List (Act Q χ)) : List Q :=
  acts.filterMap fun
    | .start q => some q
    | .resume _ _ => none

/-- Each program came from the request that started it by its own calls, and the calls of all of them are
    the log. -/
structure Shares (exec : (c : C) → χ → S → R c × S) (body : Q → Prog C R ε α) (own : List (Q × List (Prog.Step C χ S)))
    (t : Pool C R ε α (S × List (Prog.Step C χ S))) : Prop where
  came : List.Forall₂ (fun x p => Prog.Path exec (body x.1) x.2 p) own t.programs
  log : t.state.2.Perm (own.flatMap Prod.snd)

/-- Of two related lists one changes in one place, and the other one there, too. -/
theorem forall₂_set {A B : Type} {P : A → B → Prop} {as : List A} {bs : List B} (h : List.Forall₂ P as bs) {i : Nat} {b b' : B}
    (hi : bs[i]? = some b) {f : A → A} (hb : ∀ a, P a b → P (f a) b') :
    ∃ a, as[i]? = some a ∧ List.Forall₂ P (as.set i (f a)) (bs.set i b') := by
  induction h generalizing i with
  | nil => cases hi
  | @cons a _ as _ hab h ih =>
    cases i with
    | zero =>
      cases hi
      exact ⟨a, rfl, .cons (hb a hab) h⟩
    | succ i =>
      obtain ⟨a', ha, hset⟩ := ih hi
      exact ⟨a', ha, .cons hab hset⟩

/-- What a list gathers grows by one element when an entry does. -/
theorem flatMap_set_perm {A B : Type} {f : A → List B} {xs : List A} {i : Nat} {a a' : A} (hi : xs[i]? = some a) {b : B}
    (hb : f a' = f a ++ [b]) : (xs.flatMap f ++ [b]).Perm ((xs.set i a').flatMap f) := by
  induction xs generalizing i with
  | nil => cases hi
  | cons x xs ih =>
    cases i with
    | zero =>
      cases hi
      rw [List.set_cons_zero, List.flatMap_cons, List.flatMap_cons, hb, List.append_assoc, List.append_assoc]
      exact List.perm_append_comm.append_left (f a)
    | succ i =>
      rw [List.set_cons_succ, List.flatMap_cons, List.flatMap_cons, List.append_assoc]
      exact (ih hi).append_left (f x)

theorem shares_run {acts : List (Act Q χ)} {t u : Pool C R ε α (S × List (Prog.Step C χ S))}
    {own : List (Q × List (Prog.Step C χ S))} (h : Runs.run (step (logged exec) body) t acts = some u)
    (ht : t.Shares exec body own) :
    ∃ own', own'.map Prod.fst = own.map Prod.fst ++ started acts ∧ u.Shares exec body own' := by
  induction acts generalizing t own with
  | nil =>
    cases h
    exact ⟨own, (List.append_nil _).symm, ht⟩
  | cons a acts ih =>
    obtain ⟨v, hv, hvu⟩ := Runs.run_cons.mp h
    cases a with
    | start q =>
      cases hv
      have hnew : (⟨t.state, t.programs ++ [body q]⟩ : Pool C R ε α (S × List (Prog.Step C χ S))).Shares exec body
          (own ++ [(q, [])]) := by
        refine ⟨List.rel_append ht.came (.cons (.stop _) .nil), ?_⟩
        rw [List.flatMap_append]
        simpa using ht.log
      obtain ⟨own', hown, hshares⟩ := ih hvu hnew
      refine ⟨own', ?_, hshares⟩
      rw [hown, List.map_append, List.append_assoc]
      rfl
    | resume i x =>
      obtain ⟨c, k, hi, hstate, hprograms⟩ := resume_eq_some.mp hv
      obtain ⟨⟨q, steps⟩, hq, hcame⟩ := forall₂_set (f := fun y => (y.1, y.2 ++ [⟨c, x, t.state.1⟩])) ht.came hi
        fun y hy => hy.snoc x t.state.1
      have hnew : v.Shares exec body (own.set i (q, steps ++ [⟨c, x, t.state.1⟩])) := by
        refine ⟨hprograms ▸ hcame, ?_⟩
        have hlog : v.state.2 = t.state.2 ++ [⟨c, x, t.state.1⟩] := by rw [← hstate]; rfl
        rw [hlog]
        exact (ht.log.append_right _).trans (flatMap_set_perm hq rfl)
      obtain ⟨own', hown, hshares⟩ := ih hvu hnew
      refine ⟨own', ?_, hshares⟩
      have hmap : (own.set i (q, steps ++ [⟨c, x, t.state.1⟩])).map Prod.fst = own.map Prod.fst := by
        obtain ⟨hlt, hget⟩ := List.getElem?_eq_some_iff.mp hq
        have hlt' : i < (own.map Prod.fst).length := by rwa [List.length_map]
        have hfst : (own.map Prod.fst)[i] = q := by rw [List.getElem_map, hget]
        rw [List.map_set, ← hfst, List.set_getElem_self]
      rw [hown, hmap]
      rfl

/-- Each program issues calls that its request may issue. -/
theorem calls_run {P : Q → C → Prop} {acts : List (Act Q χ)}
    (hbody : ∀ q, .start q ∈ acts → (body q).CallsOn (fun _ _ => True) (P q)) {t u : Pool C R ε α S} {qs : List Q}
    (ht : List.Forall₂ (fun q p => p.CallsOn (fun _ _ => True) (P q)) qs t.programs) (h : Runs.run (step exec body) t acts = some u) :
    List.Forall₂ (fun q p => p.CallsOn (fun _ _ => True) (P q)) (qs ++ started acts) u.programs := by
  induction acts generalizing t qs with
  | nil =>
    cases h
    simpa [started] using ht
  | cons a acts ih =>
    have hrest : ∀ q, .start q ∈ acts → (body q).CallsOn (fun _ _ => True) (P q) := fun q hq => hbody q (List.mem_cons_of_mem _ hq)
    obtain ⟨v, hv, hvu⟩ := Runs.run_cons.mp h
    cases a with
    | start q =>
      cases hv
      have hnew := ih hrest (List.rel_append ht (.cons (hbody q List.mem_cons_self) .nil)) hvu
      rw [List.append_assoc] at hnew
      exact hnew
    | resume i x =>
      obtain ⟨c, k, hi, -, hprograms⟩ := resume_eq_some.mp hv
      obtain ⟨q, hq, hset⟩ := forall₂_set (f := id) ht hi fun q hcalls => hcalls.2 _ trivial
      obtain ⟨hlt, rfl⟩ := List.getElem?_eq_some_iff.mp hq
      rw [id, List.set_getElem_self, hprograms] at hset
      exact ih hrest hset hvu

/-- A step of a run is a call that the request of its program may issue. -/
theorem resume_calls {P : Q → C → Prop} {acts : List (Act Q χ)}
    (hbody : ∀ q, .start q ∈ acts → (body q).CallsOn (fun _ _ => True) (P q)) {s : S} {t u : Pool C R ε α S}
    (h : Runs.run (step exec body) ⟨s, []⟩ acts = some t) {i : Nat} {x : χ} (hstep : t.resume exec i x = some u) :
    ∃ q c, (started acts)[i]? = some q ∧ P q c ∧ u.state = (exec c x t.state).2 := by
  obtain ⟨c, k, hi, hstate, -⟩ := resume_eq_some.mp hstep
  obtain ⟨hlength, hcalls⟩ := List.forall₂_iff_get.mp (calls_run hbody .nil h)
  obtain ⟨hlt, hget⟩ := List.getElem?_eq_some_iff.mp hi
  have hissued := hcalls i (hlength ▸ hlt) hlt
  rw [List.get_eq_getElem, List.get_eq_getElem, hget] at hissued
  exact ⟨_, c, List.getElem?_eq_getElem (hlength ▸ hlt), hissued.1, hstate.symm⟩

end Pool
