import Mathlib.Data.List.Induction
import Mathlib.Data.List.Nodup
import Redgw.Lib.Pool

/-! # Linearizability

A program is specified by what it does at once. It has one call that does all of this, its point; before and after it
there are only calls that change nothing that matters. However such programs take turns, each behaves as if it was
run as a whole at its point. -/

namespace Pool
open Prog

variable {C : Type} {R : C → Type} {ε α χ S Q O : Type}

/-- What requests do at once, on states of which only a part may matter. -/
structure Spec (χ S Q O : Type) where
  same : S → S → Prop
  trans : ∀ {s t u}, same s t → same t u → same s u
  apply : Q → χ → S → O × S
  congr : ∀ q x {s t}, same s t → (apply q x s).1 = (apply q x t).1 ∧ same (apply q x s).2 (apply q x t).2

variable (exec : (c : C) → χ → S → R c × S) (P : Spec χ S Q O) (ends : Q → Except ε α → O → Prop)

/-- The call changes nothing that matters. -/
def Quiet (c : C) : Prop := ∀ x s, P.same (exec c x s).2 s

/-- After the point: quiet calls, and an end that fits. -/
def After (q : Q) (o : O) : Prog C R ε α → Prop
  | .pure a => ends q (.ok a) o
  | .raise e => ends q (.error e) o
  | .call c k => Quiet exec P c ∧ ∀ x s, After q o (k (exec c x s).1)

/-- Before the point: quiet calls, and then the call that does it all. A program that ends before has nothing to do. -/
def Once (q : Q) : Prog C R ε α → Prop
  | .pure a => ∀ x s, ends q (.ok a) (P.apply q x s).1 ∧ P.same s (P.apply q x s).2
  | .raise e => ∀ x s, ends q (.error e) (P.apply q x s).1 ∧ P.same s (P.apply q x s).2
  | .call c k =>
    (Quiet exec P c ∧ ∀ x s, Once q (k (exec c x s).1)) ∨
      ∀ x s, P.same (exec c x s).2 (P.apply q x s).2 ∧ After exec P ends q (P.apply q x s).1 (k (exec c x s).1)

/-- A request at its point: the number of its program, and the environment there. -/
structure Turn (χ Q : Type) where
  program : Nat
  request : Q
  env : χ

/-- The state after the requests, one after another. -/
def Spec.sequence (s : S) (order : List (Turn χ Q)) : S := order.foldl (fun s e => (P.apply e.request e.env s).2) s

def Ended : Prog C R ε α → Prop
  | .call _ _ => False
  | _ => True

/-- The order of the points so far. A program that has a turn is after its point and ends as its request does there;
    one that has none is before its point and has not ended. -/
structure Linearized (s₀ : S) (own : List Q) (t : Pool C R ε α S) (order : List (Turn χ Q)) : Prop where
  state : P.same t.state (P.sequence s₀ order)
  length : t.programs.length = own.length
  nodup : (order.map (·.program)).Nodup
  turns : ∀ pre e post, order = pre ++ e :: post → own[e.program]? = some e.request ∧
    ∀ p, t.programs[e.program]? = some p → After exec P ends e.request (P.apply e.request e.env (P.sequence s₀ pre)).1 p
  rest : ∀ i p, t.programs[i]? = some p → i ∉ order.map (·.program) →
    ∃ q, own[i]? = some q ∧ Once exec P ends q p ∧ ¬Ended p

variable {exec P ends} {s₀ : S} {own : List Q} {t u : Pool C R ε α S} {order : List (Turn χ Q)}

theorem Spec.sequence_append (s : S) (order : List (Turn χ Q)) (e : Turn χ Q) :
    P.sequence s (order ++ [e]) = (P.apply e.request e.env (P.sequence s order)).2 := by
  simp [Spec.sequence]

theorem Once.of_ended {q : Q} {p : Prog C R ε α} (h : Once exec P ends q p) (hp : Ended p) (x : χ) (s : S) :
    After exec P ends q (P.apply q x s).1 p ∧ P.same s (P.apply q x s).2 := by
  cases p with
  | pure a => exact h x s
  | raise e => exact h x s
  | call c k => exact hp.elim

/-- A program that is only quiet is after its point at any time, if its request changes nothing that matters. -/
theorem Once.of_after {q : Q} {p : Prog C R ε α} (hsame : ∀ x s, P.same s (P.apply q x s).2)
    (h : ∀ x s, After exec P ends q (P.apply q x s).1 p) : Once exec P ends q p := by
  induction p with
  | pure a => exact fun x s => ⟨h x s, hsame x s⟩
  | raise e => exact fun x s => ⟨h x s, hsame x s⟩
  | call c k ih => exact Or.inl ⟨fun x s => (h x s).1 x s, fun y u => ih _ fun x s => (h x s).2 y u⟩

theorem After.of_calls {q : Q} {o : O} {p : Prog C R ε α} (hp : p.Calls (Quiet exec P))
    (hend : p.Ends (fun _ _ => True) fun r => ends q r o) : After exec P ends q o p := by
  induction p with
  | pure a => exact hend
  | raise e => exact hend
  | call c k ih => exact ⟨hp.1, fun x s => ih _ (hp.2 _) (hend _ trivial)⟩

section Bind
variable {β : Type} {ends' : Q → Except ε β → O → Prop} {q : Q} {p : Prog C R ε α} {f : α → Prog C R ε β}

theorem After.bind {o : O} (h : After exec P ends q o p) (hf : ∀ a, ends q (.ok a) o → After exec P ends' q o (f a))
    (he : ∀ e, ends q (.error e) o → ends' q (.error e) o) : After exec P ends' q o (p.bind f) := by
  induction p with
  | pure a => exact hf a h
  | raise e => exact he e h
  | call c k ih => exact ⟨h.1, fun x s => ih _ (h.2 x s)⟩

/-- What follows a program that has its point is after the point. -/
theorem Once.bind (h : Once exec P ends q p) (hf : ∀ a o, ends q (.ok a) o → After exec P ends' q o (f a))
    (he : ∀ e o, ends q (.error e) o → ends' q (.error e) o) : Once exec P ends' q (p.bind f) := by
  induction p with
  | pure a => exact Once.of_after (fun x s => (h x s).2) fun x s => hf a _ (h x s).1
  | raise e => exact fun x s => ⟨he e _ (h x s).1, (h x s).2⟩
  | call c k ih =>
    rcases h with ⟨hquiet, hk⟩ | hpoint
    · exact Or.inl ⟨hquiet, fun x s => ih _ (hk x s)⟩
    · refine Or.inr fun x s => ⟨(hpoint x s).1, ?_⟩
      exact (hpoint x s).2.bind (fun a ha => hf a _ ha) fun e => he e _

end Bind

theorem linearized_nil (s : S) (hrefl : P.same s s) :
    Linearized exec P ends s [] (⟨s, []⟩ : Pool C R ε α S) [] where
  state := hrefl
  length := rfl
  nodup := List.nodup_nil
  turns pre e post h := by cases pre <;> cases h
  rest i p h := by cases h

/-- The turns stay when one more program comes to its point. -/
theorem append_turn {e e' : Turn χ Q} {pre post : List (Turn χ Q)} (h : order ++ [e'] = pre ++ e :: post) :
    pre = order ∧ e = e' ∨ ∃ post', order = pre ++ e :: post' := by
  rcases List.append_eq_append_iff.mp h with ⟨as, hpre, hrest⟩ | ⟨bs, horder, hrest⟩
  · cases as with
    | nil =>
      cases hrest
      exact Or.inl ⟨by simpa using hpre, rfl⟩
    | cons a as =>
      obtain ⟨-, hnil⟩ := List.cons.inj hrest
      exact absurd hnil.symm (by simp)
  · cases bs with
    | nil =>
      cases hrest
      exact Or.inl ⟨by simpa using horder.symm, rfl⟩
    | cons b bs =>
      obtain ⟨rfl, -⟩ := List.cons.inj hrest
      exact Or.inr ⟨bs, horder⟩

/-! ### Steps -/

section Steps
variable {i : Nat} {q : Q} {p p' : Prog C R ε α} {state : S}

theorem After.quiet {o : O} {c : C} {k : R c → Prog C R ε α} (h : After exec P ends q o (.call c k)) (x : χ) (s : S) :
    P.same (exec c x s).2 s ∧ After exec P ends q o (k (exec c x s).1) := ⟨h.1 x s, h.2 x s⟩

/-- A program that has not had its turn is still before its point. -/
theorem Linearized.wait (ht : t.Linearized exec P ends s₀ own order) (hq : own[i]? = some q) (hi : i ∉ order.map (·.program))
    (hp' : Once exec P ends q p') (hend : ¬Ended p') (hstate : P.same state t.state) :
    (⟨state, t.programs.set i p'⟩ : Pool C R ε α S).Linearized exec P ends s₀ own order where
  state := P.trans hstate ht.state
  length := by rw [List.length_set, ht.length]
  nodup := ht.nodup
  turns pre e post horder := by
    obtain ⟨hown, hafter⟩ := ht.turns pre e post horder
    refine ⟨hown, fun r hr => ?_⟩
    rcases getElem?_set_cases hr with ⟨he, -⟩ | ⟨-, hr⟩
    · exact absurd (List.mem_map.mpr ⟨e, by simp [horder], he⟩) hi
    · exact hafter r hr
  rest j r hr hj := by
    rcases getElem?_set_cases hr with ⟨rfl, rfl⟩ | ⟨-, hr⟩
    · exact ⟨q, hq, hp', hend⟩
    · exact ht.rest j r hr hj

/-- A program that has had its turn is still after its point. -/
theorem Linearized.follow (ht : t.Linearized exec P ends s₀ own order) (hi : i ∈ order.map (·.program))
    (hp' : ∀ q o, After exec P ends q o p → After exec P ends q o p') (hp : t.programs[i]? = some p) (hstate : P.same state t.state) :
    (⟨state, t.programs.set i p'⟩ : Pool C R ε α S).Linearized exec P ends s₀ own order where
  state := P.trans hstate ht.state
  length := by rw [List.length_set, ht.length]
  nodup := ht.nodup
  turns pre e post horder := by
    obtain ⟨hown, hafter⟩ := ht.turns pre e post horder
    refine ⟨hown, fun r hr => ?_⟩
    rcases getElem?_set_cases hr with ⟨he, rfl⟩ | ⟨-, hr⟩
    · exact hp' _ _ (hafter p (he ▸ hp))
    · exact hafter r hr
  rest j r hr hj := by
    rcases getElem?_set_cases hr with ⟨rfl, -⟩ | ⟨-, hr⟩
    · exact absurd hi hj
    · exact ht.rest j r hr hj

/-- A program comes to its point. -/
theorem Linearized.turn (ht : t.Linearized exec P ends s₀ own order) (hq : own[i]? = some q) (hi : i ∉ order.map (·.program))
    {x : χ} (hstate : P.same state (P.apply q x (P.sequence s₀ order)).2)
    (hp' : After exec P ends q (P.apply q x (P.sequence s₀ order)).1 p') :
    (⟨state, t.programs.set i p'⟩ : Pool C R ε α S).Linearized exec P ends s₀ own (order ++ [⟨i, q, x⟩]) where
  state := by
    rw [Spec.sequence_append]
    exact hstate
  length := by rw [List.length_set, ht.length]
  nodup := by
    rw [List.map_append, List.nodup_append_comm]
    exact List.nodup_cons.mpr ⟨hi, ht.nodup⟩
  turns pre e post horder := by
    rcases append_turn horder with ⟨rfl, rfl⟩ | ⟨post', hold⟩
    · refine ⟨hq, fun r hr => ?_⟩
      rcases getElem?_set_cases hr with ⟨-, rfl⟩ | ⟨hne, -⟩
      · exact hp'
      · exact absurd rfl hne
    · obtain ⟨hown, hafter⟩ := ht.turns pre e post' hold
      refine ⟨hown, fun r hr => ?_⟩
      rcases getElem?_set_cases hr with ⟨he, -⟩ | ⟨-, hr⟩
      · exact absurd (List.mem_map.mpr ⟨e, by simp [hold], he⟩) hi
      · exact hafter r hr
  rest j r hr hj := by
    rw [List.map_append, List.mem_append, not_or] at hj
    rcases getElem?_set_cases hr with ⟨rfl, -⟩ | ⟨-, hr⟩
    · exact absurd (List.mem_singleton.mpr rfl) hj.2
    · exact ht.rest j r hr hj.1

theorem Linearized.start (ht : t.Linearized exec P ends s₀ own order) (hq : Once exec P ends q p) (hend : ¬Ended p) :
    (⟨t.state, t.programs ++ [p]⟩ : Pool C R ε α S).Linearized exec P ends s₀ (own ++ [q]) order := by
  have hcases : ∀ {j r}, (t.programs ++ [p])[j]? = some r → j = own.length ∧ r = p ∨ t.programs[j]? = some r := by
    intro j r hr
    by_cases hj : j < t.programs.length
    · rw [List.getElem?_append_left hj] at hr
      exact Or.inr hr
    · have hlt := (List.getElem?_eq_some_iff.mp hr).1
      have hj' : j = t.programs.length := by
        rw [List.length_append, List.length_singleton] at hlt
        omega
      subst hj'
      rw [List.getElem?_concat_length] at hr
      exact Or.inl ⟨ht.length, (Option.some.inj hr).symm⟩
  refine ⟨ht.state, by simp [ht.length], ht.nodup, fun pre e post horder => ?_, fun j r hr hj => ?_⟩
  · obtain ⟨hown, hafter⟩ := ht.turns pre e post horder
    have hlt := (List.getElem?_eq_some_iff.mp hown).1
    refine ⟨List.getElem?_append_left hlt ▸ hown, fun r hr => ?_⟩
    rcases hcases hr with ⟨he, -⟩ | hr
    · exact absurd he (Nat.ne_of_lt hlt)
    · exact hafter r hr
  · rcases hcases hr with ⟨rfl, rfl⟩ | hr
    · exact ⟨q, List.getElem?_concat_length, hq, hend⟩
    · obtain ⟨q', hq', hr'⟩ := ht.rest j r hr hj
      exact ⟨q', List.getElem?_append_left (List.getElem?_eq_some_iff.mp hq').1 ▸ hq', hr'⟩

theorem Linearized.resume (ht : t.Linearized exec P ends s₀ own order) {x : χ} (h : t.resume exec i x = some u) :
    ∃ more, u.Linearized exec P ends s₀ own (order ++ more) ∧ ∀ e ∈ more, e.program = i ∧ e.env = x := by
  obtain ⟨c, k, hi, hstate, hprograms⟩ := resume_eq_some.mp h
  obtain ⟨state, programs⟩ := u
  cases hstate
  cases hprograms
  by_cases hturn : i ∈ order.map (·.program)
  · refine ⟨[], ?_, fun e he => by cases he⟩
    rw [List.append_nil]
    obtain ⟨e, he, hnumber⟩ := List.mem_map.mp hturn
    obtain ⟨pre, post, hsplit⟩ := List.append_of_mem he
    have hafter := (ht.turns pre e post hsplit).2 _ (hnumber ▸ hi)
    exact ht.follow hturn (fun q o hp => (hp.quiet x t.state).2) hi (hafter.quiet x t.state).1
  · have hown : ∀ q : Q, ∀ e ∈ [(⟨i, q, x⟩ : Turn χ Q)], e.program = i ∧ e.env = x := by simp
    obtain ⟨q, hq, honce, -⟩ := ht.rest i _ hi hturn
    rcases honce with ⟨hquiet, hk⟩ | hpoint
    · by_cases hend : Ended (k (exec c x t.state).1)
      · obtain ⟨hafter, hsame⟩ := (hk x t.state).of_ended hend x (P.sequence s₀ order)
        exact ⟨_, ht.turn hq hturn (P.trans (P.trans (hquiet x t.state) ht.state) hsame) hafter, hown q⟩
      · refine ⟨[], ?_, fun e he => by cases he⟩
        rw [List.append_nil]
        exact ht.wait hq hturn (hk x t.state) hend (hquiet x t.state)
    · obtain ⟨hsame, hafter⟩ := hpoint x t.state
      obtain ⟨hreply, hstate⟩ := P.congr q x ht.state
      rw [hreply] at hafter
      exact ⟨_, ht.turn hq hturn (P.trans hsame hstate) hafter, hown q⟩

/-- However the programs take turns: they can be put in an order, to which later steps only add, so that each of them
    does what its request does at once in its place. Its turn is at a step of its own, and it has one at the start. -/
theorem Linearized.run {body : Q → Prog C R ε α} {acts : List (Act Q χ)}
    (hbody : ∀ q, .start q ∈ acts → Once exec P ends q (body q) ∧ ¬Ended (body q)) (ht : t.Linearized exec P ends s₀ own order)
    (h : Runs.run (step exec body) t acts = some u) :
    ∃ more, u.Linearized exec P ends s₀ (own ++ started acts) (order ++ more) ∧ ∀ e ∈ more, .resume e.program e.env ∈ acts := by
  induction acts generalizing t own order with
  | nil =>
    cases h
    refine ⟨[], ?_, fun e he => by cases he⟩
    rw [List.append_nil]
    exact (List.append_nil own).symm ▸ ht
  | cons a acts ih =>
    obtain ⟨v, hv, hvu⟩ := Runs.run_cons.mp h
    have hlater : ∀ q, .start q ∈ acts → Once exec P ends q (body q) ∧ ¬Ended (body q) := fun q hq =>
      hbody q (List.mem_cons_of_mem _ hq)
    cases a with
    | start q =>
      cases hv
      obtain ⟨honce, hend⟩ := hbody q List.mem_cons_self
      obtain ⟨more, hmore, hturns⟩ := ih hlater (ht.start honce hend) hvu
      refine ⟨more, ?_, fun e he => List.mem_cons_of_mem _ (hturns e he)⟩
      rw [List.append_assoc] at hmore
      exact hmore
    | resume i x =>
      obtain ⟨more, hmore, hstep⟩ := ht.resume hv
      obtain ⟨more', hmore', hturns⟩ := ih hlater hmore hvu
      refine ⟨more ++ more', ?_, fun e he => ?_⟩
      · rw [List.append_assoc] at hmore'
        exact hmore'
      · rcases List.mem_append.mp he with he | he
        · obtain ⟨rfl, rfl⟩ := hstep e he
          exact List.mem_cons_self
        · exact List.mem_cons_of_mem _ (hturns e he)

/-- A program that has ended has had its turn, and has ended as its request does there. -/
theorem Linearized.outcome (ht : t.Linearized exec P ends s₀ own order) (hp : t.programs[i]? = some p) (hend : Ended p) :
    ∃ pre e post, order = pre ++ e :: post ∧ e.program = i ∧ own[i]? = some e.request ∧
      After exec P ends e.request (P.apply e.request e.env (P.sequence s₀ pre)).1 p := by
  by_cases hturn : i ∈ order.map (·.program)
  · obtain ⟨e, he, rfl⟩ := List.mem_map.mp hturn
    obtain ⟨pre, post, hsplit⟩ := List.append_of_mem he
    obtain ⟨hown, hafter⟩ := ht.turns pre e post hsplit
    exact ⟨pre, e, post, hsplit, rfl, hown, hafter p hp⟩
  · obtain ⟨q, -, -, hnot⟩ := ht.rest i p hp hturn
    exact absurd hend hnot

end Steps

/-! ### What the turns do to one object -/

section Objects
variable {A T : Type}

/-- An object that a state holds: each turn moves it, or leaves it alone. -/
structure Object (χ S Q O A T : Type) where
  apply : A → T → A
  Holds : A → S → Prop
  /-- The turn makes this move of an object that is so, and this is its outcome. -/
  Moves : Turn χ Q → T → A → O → Prop
  Idle : Turn χ Q → O → Prop

/-- The object after some moves, each of which goes with the number of its program. -/
def Object.after (B : Object χ S Q O A T) (a : A) (moves : List (Nat × T)) : A := (moves.map Prod.snd).foldl B.apply a

/-- What a turn does to the object at a state that holds it. -/
def Object.Turns (B : Object χ S Q O A T) (P : Spec χ S Q O) (e : Turn χ Q) : Prop :=
  ∀ a s, B.Holds a s → (∃ τ, B.Moves e τ a (P.apply e.request e.env s).1 ∧ B.Holds (B.apply a τ) (P.apply e.request e.env s).2) ∨
    B.Idle e (P.apply e.request e.env s).1 ∧ B.Holds a (P.apply e.request e.env s).2

/-- The moves that are made in an order of turns. -/
structure Object.Moved (B : Object χ S Q O A T) (P : Spec χ S Q O) (a₀ : A) (s₀ : S) (order : List (Turn χ Q))
    (moves : List (Nat × T)) : Prop where
  holds : B.Holds (B.after a₀ moves) (P.sequence s₀ order)
  sublist : (moves.map Prod.fst).Sublist (order.map (·.program))
  own : ∀ x ∈ moves, ∃ e ∈ order, e.program = x.1 ∧ ∃ a o, B.Moves e x.2 a o
  turns : ∀ pre e post, order = pre ++ e :: post →
    (∃ before τ after, moves = before ++ (e.program, τ) :: after ∧
      B.Moves e τ (B.after a₀ before) (P.apply e.request e.env (P.sequence s₀ pre)).1) ∨
    e.program ∉ moves.map Prod.fst ∧ B.Idle e (P.apply e.request e.env (P.sequence s₀ pre)).1

variable {B : Object χ S Q O A T} {a₀ : A} {moves : List (Nat × T)} {e : Turn χ Q}

theorem Object.after_snoc (a : A) (moves : List (Nat × T)) (i : Nat) (τ : T) :
    B.after a (moves ++ [(i, τ)]) = B.apply (B.after a moves) τ := by
  simp [Object.after]

theorem Object.Moved.move (h : B.Moved P a₀ s₀ order moves) {τ : T}
    (hτ : B.Moves e τ (B.after a₀ moves) (P.apply e.request e.env (P.sequence s₀ order)).1)
    (hholds : B.Holds (B.apply (B.after a₀ moves) τ) (P.apply e.request e.env (P.sequence s₀ order)).2)
    (hnew : e.program ∉ order.map (·.program)) : B.Moved P a₀ s₀ (order ++ [e]) (moves ++ [(e.program, τ)]) where
  holds := by
    rw [Object.after_snoc, Spec.sequence_append]
    exact hholds
  sublist := by
    rw [List.map_append, List.map_append]
    exact h.sublist.append (List.Sublist.refl _)
  own x hx := by
    rcases List.mem_append.mp hx with hx | hx
    · obtain ⟨e', he', hown⟩ := h.own x hx
      exact ⟨e', List.mem_append_left _ he', hown⟩
    · rw [List.mem_singleton.mp hx]
      exact ⟨e, List.mem_append_right _ (List.mem_singleton.mpr rfl), rfl, _, _, hτ⟩
  turns pre e' post horder := by
    rcases append_turn horder with ⟨rfl, rfl⟩ | ⟨post', hold⟩
    · exact Or.inl ⟨moves, τ, [], rfl, hτ⟩
    · rcases h.turns pre e' post' hold with ⟨before, σ, after, rfl, hσ⟩ | ⟨hout, hidle⟩
      · exact Or.inl ⟨before, σ, after ++ [(e.program, τ)], by rw [List.append_assoc, List.cons_append], hσ⟩
      · refine Or.inr ⟨fun hmem => ?_, hidle⟩
        rw [List.map_append] at hmem
        rcases List.mem_append.mp hmem with hmem | hmem
        · exact hout hmem
        · have he' : e'.program = e.program := List.mem_singleton.mp hmem
          exact hnew (List.mem_map.mpr ⟨e', by simp [hold], he'⟩)

theorem Object.Moved.idle (h : B.Moved P a₀ s₀ order moves) (hidle : B.Idle e (P.apply e.request e.env (P.sequence s₀ order)).1)
    (hholds : B.Holds (B.after a₀ moves) (P.apply e.request e.env (P.sequence s₀ order)).2)
    (hnew : e.program ∉ order.map (·.program)) : B.Moved P a₀ s₀ (order ++ [e]) moves where
  holds := by
    rw [Spec.sequence_append]
    exact hholds
  sublist := by
    rw [List.map_append]
    exact h.sublist.trans (List.sublist_append_left _ _)
  own x hx := by
    obtain ⟨e', he', hown⟩ := h.own x hx
    exact ⟨e', List.mem_append_left _ he', hown⟩
  turns pre e' post horder := by
    rcases append_turn horder with ⟨rfl, rfl⟩ | ⟨post', hold⟩
    · exact Or.inr ⟨fun hmem => hnew (h.sublist.subset hmem), hidle⟩
    · exact h.turns pre e' post' hold

theorem Object.moved_nil (h₀ : B.Holds a₀ s₀) : B.Moved P a₀ s₀ [] [] :=
  ⟨h₀, List.nil_sublist _, fun x hx => (by cases hx), fun pre e post h => (by cases pre <;> cases h)⟩

/-- Turns each of which moves the object or leaves it alone move it one after another. -/
theorem Object.Moved.more (h : B.Moved P a₀ s₀ order moves) {later : List (Turn χ Q)}
    (horder : ((order ++ later).map (·.program)).Nodup) (hturns : ∀ e ∈ later, B.Turns P e) :
    ∃ more, B.Moved P a₀ s₀ (order ++ later) (moves ++ more) := by
  induction later using List.reverseRecOn with
  | nil =>
    refine ⟨[], ?_⟩
    rw [List.append_nil, List.append_nil]
    exact h
  | append_singleton later e ih =>
    rw [← List.append_assoc] at horder ⊢
    rw [List.map_append, List.nodup_append_comm] at horder
    obtain ⟨hnew, hnodup⟩ := List.nodup_cons.mp horder
    obtain ⟨more, hmore⟩ := ih hnodup fun e he => hturns e (List.mem_append_left _ he)
    rcases hturns e (by simp) _ _ hmore.holds with ⟨τ, hτ, hholds⟩ | ⟨hidle, hholds⟩
    · refine ⟨more ++ [(e.program, τ)], ?_⟩
      rw [← List.append_assoc]
      exact hmore.move hτ hholds hnew
    · exact ⟨more, hmore.idle hidle hholds hnew⟩

end Objects

end Pool
