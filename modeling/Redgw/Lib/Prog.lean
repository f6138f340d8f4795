import Mathlib.Logic.Basic

/-! # Programs over atomic calls

A program issues calls to a server one at a time, reads each reply and ends with a result or an
exception. The server is left open: `run` executes a program alone against any interpretation of the
calls, and `Calls` says which calls a program can issue whatever the replies are. The rules lift what
one call keeps to what a whole program keeps. -/

/-- A program that issues calls of `C`, the call `c` being answered by an `R c`, and ends with an `α`
    or raises an `ε`. -/
inductive Prog (C : Type) (R : C → Type) (ε α : Type) : Type
  | pure (a : α)
  | raise (e : ε)
  | call (c : C) (k : R c → Prog C R ε α)

namespace Prog

variable {C : Type} {R : C → Type} {ε α β χ S : Type}

/-- Sequencing. An exception skips the rest. -/
def bind : Prog C R ε α → (α → Prog C R ε β) → Prog C R ε β
  | .pure a, f => f a
  | .raise e, _ => .raise e
  | .call c k, f => .call c fun r => (k r).bind f

/-- `try`/`except`: the handler sees the exception of the body. -/
def catching : Prog C R ε α → (ε → Prog C R ε α) → Prog C R ε α
  | .pure a, _ => .pure a
  | .raise e, h => h e
  | .call c k, h => .call c fun r => (k r).catching h

instance : Monad (Prog C R ε) where
  pure := .pure
  bind := .bind

instance : MonadExceptOf ε (Prog C R ε) where
  throw := .raise
  tryCatch := .catching

/-- The program that issues one call and returns its reply. -/
def ask (c : C) : Prog C R ε (R c) := .call c .pure

/-- A computation without calls, as a program. -/
def ofExcept : Except ε α → Prog C R ε α
  | .ok a => .pure a
  | .error e => .raise e

instance : MonadLift (Except ε) (Prog C R ε) where
  monadLift := ofExcept

@[simp] theorem lift_eq (x : Except ε α) : (monadLift x : Prog C R ε α) = ofExcept x := rfl
@[simp] theorem pure_eq (a : α) : (Pure.pure a : Prog C R ε α) = .pure a := rfl
@[simp] theorem bind_eq (p : Prog C R ε α) (f : α → Prog C R ε β) : p >>= f = p.bind f := rfl
@[simp] theorem throw_eq (e : ε) : (throw e : Prog C R ε α) = .raise e := rfl
@[simp] theorem tryCatch_eq (p : Prog C R ε α) (h : ε → Prog C R ε α) : tryCatch p h = p.catching h := rfl
@[simp] theorem pure_bind (a : α) (f : α → Prog C R ε β) : (Prog.pure a).bind f = f a := rfl
@[simp] theorem raise_bind (e : ε) (f : α → Prog C R ε β) : (Prog.raise e).bind f = .raise e := rfl
@[simp] theorem call_bind (c : C) (k : R c → Prog C R ε α) (f : α → Prog C R ε β) :
    (Prog.call c k).bind f = .call c fun r => (k r).bind f := rfl
@[simp] theorem bind_assoc (p : Prog C R ε α) (f : α → Prog C R ε β) {γ : Type} (g : β → Prog C R ε γ) :
    (p.bind f).bind g = p.bind fun a => (f a).bind g := by
  induction p with
  | pure a => rfl
  | raise e => rfl
  | call c k ih => simp only [call_bind, ih]

@[simp] theorem ofExcept_ok (a : α) : (ofExcept (.ok a) : Prog C R ε α) = .pure a := rfl
@[simp] theorem ofExcept_error (e : ε) : (ofExcept (.error e) : Prog C R ε α) = .raise e := rfl

/-! ### The calls a program can issue -/

/-- Every call that the program can issue, whatever the replies, satisfies `P`. -/
def Calls (P : C → Prop) : Prog C R ε α → Prop
  | .pure _ => True
  | .raise _ => True
  | .call c k => P c ∧ ∀ r, (k r).Calls P

@[simp] theorem calls_pure (P : C → Prop) (a : α) : (Prog.pure a : Prog C R ε α).Calls P := trivial
@[simp] theorem calls_raise (P : C → Prop) (e : ε) : (Prog.raise e : Prog C R ε α).Calls P := trivial

@[simp] theorem calls_call {P : C → Prop} {c : C} {k : R c → Prog C R ε α} :
    (Prog.call c k).Calls P ↔ P c ∧ ∀ r, (k r).Calls P := Iff.rfl

@[simp] theorem calls_ask {P : C → Prop} {c : C} : (ask c : Prog C R ε (R c)).Calls P ↔ P c := by
  simp [ask]

@[simp] theorem calls_ofExcept (P : C → Prop) (x : Except ε α) : (ofExcept x : Prog C R ε α).Calls P := by
  cases x <;> trivial

theorem Calls.bind {P : C → Prop} {p : Prog C R ε α} {f : α → Prog C R ε β} (hp : p.Calls P)
    (hf : ∀ a, (f a).Calls P) : (p.bind f).Calls P := by
  induction p with
  | pure a => exact hf a
  | raise e => trivial
  | call c k ih => exact ⟨hp.1, fun r => ih r (hp.2 r)⟩

/-- What follows a computation without calls sees only the values that it ends with. -/
theorem Calls.ofExcept_bind {P : C → Prop} {x : Except ε α} {f : α → Prog C R ε β}
    (hf : ∀ a, x = .ok a → (f a).Calls P) : ((ofExcept x).bind f).Calls P := by
  cases x with
  | ok a => exact hf a rfl
  | error e => trivial

theorem Calls.forM {P : C → Prop} {f : χ → Prog C R ε PUnit} (hf : ∀ x, (f x).Calls P) (xs : List χ) :
    (xs.forM f).Calls P := by
  induction xs with
  | nil => trivial
  | cons x xs ih => exact Calls.bind (hf x) fun _ => ih

theorem Calls.catching {P : C → Prop} {p : Prog C R ε α} {h : ε → Prog C R ε α} (hp : p.Calls P)
    (hh : ∀ e, (h e).Calls P) : (p.catching h).Calls P := by
  induction p with
  | pure a => trivial
  | raise e => exact hh e
  | call c k ih => exact ⟨hp.1, fun r => ih r (hp.2 r)⟩

theorem Calls.mono {P Q : C → Prop} (hPQ : ∀ c, P c → Q c) {p : Prog C R ε α} (hp : p.Calls P) :
    p.Calls Q := by
  induction p with
  | pure a => trivial
  | raise e => trivial
  | call c k ih => exact ⟨hPQ c hp.1, fun r => ih r (hp.2 r)⟩

/-- Every call that the program can issue satisfies `P`, as long as the replies satisfy `G`. -/
def CallsOn (G : (c : C) → R c → Prop) (P : C → Prop) : Prog C R ε α → Prop
  | .pure _ => True
  | .raise _ => True
  | .call c k => P c ∧ ∀ r, G c r → (k r).CallsOn G P

theorem Calls.on {G : (c : C) → R c → Prop} {P : C → Prop} {p : Prog C R ε α} (hp : p.Calls P) : p.CallsOn G P := by
  induction p with
  | pure a => trivial
  | raise e => trivial
  | call c k ih => exact ⟨hp.1, fun r _ => ih r (hp.2 r)⟩

theorem CallsOn.mono {G : (c : C) → R c → Prop} {P Q : C → Prop} (hPQ : ∀ c, P c → Q c) {p : Prog C R ε α}
    (hp : p.CallsOn G P) : p.CallsOn G Q := by
  induction p with
  | pure a => trivial
  | raise e => trivial
  | call c k ih => exact ⟨hPQ c hp.1, fun r hr => ih r (hp.2 r hr)⟩

theorem CallsOn.bind {G : (c : C) → R c → Prop} {P : C → Prop} {p : Prog C R ε α} {f : α → Prog C R ε β}
    (hp : p.CallsOn G P) (hf : ∀ a, (f a).CallsOn G P) : (p.bind f).CallsOn G P := by
  induction p with
  | pure a => exact hf a
  | raise e => trivial
  | call c k ih => exact ⟨hp.1, fun r hr => ih r (hp.2 r hr)⟩

theorem CallsOn.ofExcept_bind {G : (c : C) → R c → Prop} {P : C → Prop} {x : Except ε α} {f : α → Prog C R ε β}
    (hf : ∀ a, x = .ok a → (f a).CallsOn G P) : ((ofExcept x).bind f).CallsOn G P := by
  cases x with
  | ok a => exact hf a rfl
  | error e => trivial

/-! ### How a program can end -/

/-- Whatever it is answered, as long as each reply satisfies `G`, the program ends in an outcome of `Q`. -/
def Ends (G : (c : C) → R c → Prop) (Q : Except ε α → Prop) : Prog C R ε α → Prop
  | .pure a => Q (.ok a)
  | .raise e => Q (.error e)
  | .call c k => ∀ r, G c r → (k r).Ends G Q

section Ends
variable {G : (c : C) → R c → Prop}

theorem Ends.mono {P Q : Except ε α → Prop} (hPQ : ∀ x, P x → Q x) {p : Prog C R ε α} (hp : p.Ends G P) :
    p.Ends G Q := by
  induction p with
  | pure a => exact hPQ _ hp
  | raise e => exact hPQ _ hp
  | call c k ih => exact fun r hr => ih r (hp r hr)

theorem Ends.bind {P : Except ε α → Prop} {Q : Except ε β → Prop} {p : Prog C R ε α} {f : α → Prog C R ε β}
    (hp : p.Ends G P) (hf : ∀ a, P (.ok a) → (f a).Ends G Q) (he : ∀ e, P (.error e) → Q (.error e)) :
    (p.bind f).Ends G Q := by
  induction p with
  | pure a => exact hf a hp
  | raise e => exact he e hp
  | call c k ih => exact fun r hr => ih r (hp r hr)

/-- What follows a program that never raises. -/
theorem Ends.bind_ok {K : α → Prop} {Q : Except ε β → Prop} {p : Prog C R ε α} {f : α → Prog C R ε β}
    (hp : p.Ends G fun o => ∃ a, o = .ok a ∧ K a) (hf : ∀ a, K a → (f a).Ends G Q) : (p.bind f).Ends G Q := by
  refine Ends.bind hp (fun a ha => ?_) fun e he => ?_
  · obtain ⟨b, heq, hb⟩ := ha
    cases heq
    exact hf a hb
  · obtain ⟨b, heq, -⟩ := he
    cases heq

theorem Ends.catching {P Q : Except ε α → Prop} {p : Prog C R ε α} {h : ε → Prog C R ε α} (hp : p.Ends G P)
    (hok : ∀ a, P (.ok a) → Q (.ok a)) (hh : ∀ e, P (.error e) → (h e).Ends G Q) : (p.catching h).Ends G Q := by
  induction p with
  | pure a => exact hok a hp
  | raise e => exact hh e hp
  | call c k ih => exact fun r hr => ih r (hp r hr)

theorem Ends.ofExcept {Q : Except ε α → Prop} {x : Except ε α} (h : Q x) : (ofExcept x : Prog C R ε α).Ends G Q := by
  cases x with
  | ok a => exact h
  | error e => exact h

/-- Nothing is known of the outcome. -/
theorem Ends.any {Q : Except ε α → Prop} (hQ : ∀ x, Q x) (p : Prog C R ε α) : p.Ends G Q := by
  induction p with
  | pure a => exact hQ _
  | raise e => exact hQ _
  | call c k ih => exact fun r _ => ih r

/-- A loop that ends normally has ended normally at every element. -/
theorem Ends.forM {K : χ → Prop} {f : χ → Prog C R ε PUnit} {xs : List χ}
    (hf : ∀ x ∈ xs, (f x).Ends G fun o => o = .ok () → K x) :
    (xs.forM f).Ends G fun o => o = .ok () → ∀ x ∈ xs, K x := by
  induction xs with
  | nil =>
    intro _ x hx
    cases hx
  | cons x xs ih =>
    refine Ends.bind (hf x List.mem_cons_self) (fun _ hx => ?_) fun e _ h => by cases h
    refine (ih fun y hy => hf y (List.mem_cons_of_mem _ hy)).mono fun o ho hok y hy => ?_
    rcases List.mem_cons.mp hy with rfl | hy
    · exact hx rfl
    · exact ho hok y hy

theorem forM_pure {f : χ → Prog C R ε PUnit} {xs : List χ} (h : ∀ x ∈ xs, f x = .pure ()) : xs.forM f = .pure () := by
  induction xs with
  | nil => rfl
  | cons x xs ih =>
    show (f x).bind (fun _ => xs.forM f) = _
    rw [h x (List.mem_cons_self ..), pure_bind]
    exact ih fun y hy => h y (List.mem_cons_of_mem _ hy)

/-- A loop over computations without calls is one. -/
theorem forM_ofExcept (f : χ → Except ε PUnit) (xs : List χ) :
    (xs.forM fun x => (Prog.ofExcept (f x) : Prog C R ε PUnit)) = Prog.ofExcept (xs.forM f) := by
  induction xs with
  | nil => rfl
  | cons x xs ih =>
    show (Prog.ofExcept (f x)).bind (fun _ => xs.forM fun x => Prog.ofExcept (f x)) = Prog.ofExcept (f x >>= fun _ => xs.forM f)
    cases f x with
    | ok a => exact ih
    | error e => rfl

/-- What follows a program sees only the values that it can end with. -/
theorem Calls.bind_of {P : C → Prop} {Q : Except ε α → Prop} {p : Prog C R ε α} {f : α → Prog C R ε β} (hp : p.Calls P)
    (hQ : p.Ends (fun _ _ => True) Q) (hf : ∀ a, Q (.ok a) → (f a).Calls P) : (p.bind f).Calls P := by
  induction p with
  | pure a => exact hf a hQ
  | raise e => trivial
  | call c k ih => exact ⟨hp.1, fun r => ih r (hp.2 r) (hQ r trivial)⟩

end Ends

/-! ### Running alone -/

/-- Executes a program alone. `exec c x s` answers the call `c` in state `s`; `x` is what the call
    finds in its environment (the time, say), drawn from the stream `env`. -/
def run (exec : (c : C) → χ → S → R c × S) : Prog C R ε α → (Nat → χ) → S → Except ε α × S
  | .pure a, _, s => (.ok a, s)
  | .raise e, _, s => (.error e, s)
  | .call c k, env, s => (k (exec c (env 0) s).1).run exec (fun n => env (n + 1)) (exec c (env 0) s).2

variable {exec : (c : C) → χ → S → R c × S}

@[simp] theorem run_pure (a : α) (env : Nat → χ) (s : S) :
    (Prog.pure a : Prog C R ε α).run exec env s = (.ok a, s) := rfl

@[simp] theorem run_raise (e : ε) (env : Nat → χ) (s : S) :
    (Prog.raise e : Prog C R ε α).run exec env s = (.error e, s) := rfl

theorem run_call (c : C) (k : R c → Prog C R ε α) (env : Nat → χ) (s : S) :
    (Prog.call c k).run exec env s =
      (k (exec c (env 0) s).1).run exec (fun n => env (n + 1)) (exec c (env 0) s).2 := rfl

/-- A computation on the result takes no part in the run. -/
theorem run_map (p : Prog C R ε α) (g : α → β) (env : Nat → χ) (s : S) :
    (p.bind fun a => .pure (g a)).run exec env s = ((p.run exec env s).1.map g, (p.run exec env s).2) := by
  induction p generalizing env s with
  | pure a => rfl
  | raise e => rfl
  | call c k ih => exact ih _ _ _

/-- A program that issues no call leaves the state alone. -/
theorem run_silent {p : Prog C R ε α} (hp : p.Calls fun _ => False) (env : Nat → χ) (s : S) :
    (p.run exec env s).2 = s := by
  cases p with
  | pure a => rfl
  | raise e => rfl
  | call c k => exact hp.1.elim

/-- What every call of the program keeps, the run keeps: `K s t` relates a state to a later one. -/
theorem run_keeps {P : C → Prop} {K : S → S → Prop} (refl : ∀ s, K s s)
    (trans : ∀ s t u, K s t → K t u → K s u) {env : Nat → χ}
    (keep : ∀ c, P c → ∀ n s, K s (exec c (env n) s).2) {p : Prog C R ε α} (hp : p.Calls P) (s : S) :
    K s (p.run exec env s).2 := by
  induction p generalizing env s with
  | pure a => exact refl s
  | raise e => exact refl s
  | call c k ih =>
    rw [run_call]
    exact trans _ _ _ (keep c hp.1 0 s) (ih _ (fun c hc n s => keep c hc (n + 1) s) (hp.2 _) _)

/-- Runs under two interpretations end alike and in related states, when every call of the program is answered
    alike on related states and keeps them related. -/
theorem run_simulates {T : Type} {exec' : (c : C) → χ → T → R c × T} {P : C → Prop} {E : S → T → Prop}
    (same : ∀ c, P c → ∀ x s t, E s t → (exec c x s).1 = (exec' c x t).1 ∧ E (exec c x s).2 (exec' c x t).2)
    {p : Prog C R ε α} (hp : p.Calls P) (env : Nat → χ) {s : S} {t : T} (hst : E s t) :
    (p.run exec env s).1 = (p.run exec' env t).1 ∧ E (p.run exec env s).2 (p.run exec' env t).2 := by
  induction p generalizing env s t with
  | pure a => exact ⟨rfl, hst⟩
  | raise e => exact ⟨rfl, hst⟩
  | call c k ih =>
    obtain ⟨hr, he⟩ := same c hp.1 (env 0) s t hst
    rw [run_call, run_call, hr]
    exact ih _ (hp.2 _) _ he

/-- Two runs from related states end alike and in related states, when every call of the program
    answers alike on related states and keeps them related. -/
theorem run_related {P : C → Prop} {E : S → S → Prop}
    (same : ∀ c, P c → ∀ x s t, E s t → (exec c x s).1 = (exec c x t).1 ∧ E (exec c x s).2 (exec c x t).2)
    {p : Prog C R ε α} (hp : p.Calls P) (env : Nat → χ) {s t : S} (hst : E s t) :
    (p.run exec env s).1 = (p.run exec env t).1 ∧ E (p.run exec env s).2 (p.run exec env t).2 :=
  run_simulates same hp env hst

/-- With the same environment at every call, the parts of a sequence run one after the other. -/
theorem run_bind (p : Prog C R ε α) (f : α → Prog C R ε β) (x : χ) (s : S) :
    (p.bind f).run exec (fun _ => x) s =
      match p.run exec (fun _ => x) s with
      | (.ok a, t) => (f a).run exec (fun _ => x) t
      | (.error e, t) => (.error e, t) := by
  induction p generalizing s with
  | pure a => rfl
  | raise e => rfl
  | call c k ih => exact ih _ _

theorem run_bind_ok {p : Prog C R ε α} {x : χ} {s t : S} {a : α} (h : p.run exec (fun _ => x) s = (.ok a, t))
    (f : α → Prog C R ε β) : (p.bind f).run exec (fun _ => x) s = (f a).run exec (fun _ => x) t := by
  rw [run_bind, h]

/-- A sequence that succeeds has two parts that do. -/
theorem run_bind_inv {p : Prog C R ε α} {f : α → Prog C R ε β} {x : χ} {s t : S} {b : β}
    (h : (p.bind f).run exec (fun _ => x) s = (.ok b, t)) :
    ∃ a u, p.run exec (fun _ => x) s = (.ok a, u) ∧ (f a).run exec (fun _ => x) u = (.ok b, t) := by
  rw [run_bind] at h
  cases hp : p.run exec (fun _ => x) s with
  | mk o u =>
    rw [hp] at h
    cases o with
    | ok a => exact ⟨a, u, rfl, h⟩
    | error e => cases h

/-- A sequence that raises has raised in one of its parts. -/
theorem run_bind_error {p : Prog C R ε α} {f : α → Prog C R ε β} {x : χ} {s t : S} {e : ε}
    (h : (p.bind f).run exec (fun _ => x) s = (.error e, t)) : p.run exec (fun _ => x) s = (.error e, t) ∨
      ∃ a u, p.run exec (fun _ => x) s = (.ok a, u) ∧ (f a).run exec (fun _ => x) u = (.error e, t) := by
  rw [run_bind] at h
  cases hp : p.run exec (fun _ => x) s with
  | mk o u =>
    rw [hp] at h
    cases o with
    | ok a => exact Or.inr ⟨a, u, rfl, h⟩
    | error e' =>
      cases h
      exact Or.inl rfl

/-- A run ends as the program can. -/
theorem run_ends {Q : Except ε α → Prop} {p : Prog C R ε α} (hp : p.Ends (fun _ _ => True) Q) (env : Nat → χ) (s : S) :
    Q (p.run exec env s).1 := by
  induction p generalizing env s with
  | pure a => exact hp
  | raise e => exact hp
  | call c k ih => exact ih _ (hp _ trivial) _ _

/-! ### The calls of a run -/

/-- A call of a run, with what it found: its environment and the state that it came to. -/
structure Step (C χ S : Type) where
  call : C
  env : χ
  before : S

/-- The calls of a run, in order. -/
def trace (exec : (c : C) → χ → S → R c × S) : Prog C R ε α → (Nat → χ) → S → List (Step C χ S)
  | .pure _, _, _ => []
  | .raise _, _, _ => []
  | .call c k, env, s =>
    ⟨c, env 0, s⟩ :: (k (exec c (env 0) s).1).trace exec (fun n => env (n + 1)) (exec c (env 0) s).2

theorem Calls.trace {P : C → Prop} {p : Prog C R ε α} (hp : p.Calls P) (env : Nat → χ) (s : S) :
    ∀ x ∈ p.trace exec env s, P x.call := by
  induction p generalizing env s with
  | pure a => exact fun x hx => (by cases hx)
  | raise e => exact fun x hx => (by cases hx)
  | call c k ih =>
    intro x hx
    rcases List.mem_cons.mp hx with rfl | hx
    · exact hp.1
    · exact ih _ (hp.2 _) _ _ x hx

/-- A computation on the result issues no call. -/
theorem trace_map (p : Prog C R ε α) (g : α → β) (env : Nat → χ) (s : S) :
    (p.bind fun a => .pure (g a)).trace exec env s = p.trace exec env s := by
  induction p generalizing env s with
  | pure a => rfl
  | raise e => rfl
  | call c k ih => exact congrArg (List.cons _) (ih _ _ _)

/-! ### Executions in which others take part

Between two calls of a program others may change the state, so that each call can come to any state. -/

/-- The program `p` has issued the calls `steps`, each one answered in the state that it came to, and has
    become `q`. -/
inductive Path (exec : (c : C) → χ → S → R c × S) : Prog C R ε α → List (Step C χ S) → Prog C R ε α → Prop
  | stop (p : Prog C R ε α) : Path exec p [] p
  | call {c : C} {k : R c → Prog C R ε α} {x : χ} {s : S} {steps : List (Step C χ S)} {q : Prog C R ε α}
    (h : Path exec (k (exec c x s).1) steps q) : Path exec (.call c k) (⟨c, x, s⟩ :: steps) q

theorem Path.snoc {p : Prog C R ε α} {steps : List (Step C χ S)} {c : C} {k : R c → Prog C R ε α}
    (h : Path exec p steps (.call c k)) (x : χ) (s : S) : Path exec p (steps ++ [⟨c, x, s⟩]) (k (exec c x s).1) := by
  generalize hq : Prog.call c k = q at h
  induction h with
  | stop p =>
    subst hq
    exact .call (.stop _)
  | call h ih => exact .call (ih hq)

/-- Whatever states its calls come to, the calls of the program and its end satisfy `Q`. -/
def Sees (exec : (c : C) → χ → S → R c × S) (Q : List (Step C χ S) → Except ε α → Prop) : Prog C R ε α → Prop
  | .pure a => Q [] (.ok a)
  | .raise e => Q [] (.error e)
  | .call c k => ∀ x s, (k (exec c x s).1).Sees exec fun steps => Q (⟨c, x, s⟩ :: steps)

section Sees

theorem Sees.mono {P Q : List (Step C χ S) → Except ε α → Prop} (hPQ : ∀ steps o, P steps o → Q steps o)
    {p : Prog C R ε α} (hp : p.Sees exec P) : p.Sees exec Q := by
  induction p generalizing P Q with
  | pure a => exact hPQ _ _ hp
  | raise e => exact hPQ _ _ hp
  | call c k ih => exact fun x s => ih _ (fun steps o => hPQ _ o) (hp x s)

theorem Sees.bind {P : List (Step C χ S) → Except ε α → Prop} {Q : List (Step C χ S) → Except ε β → Prop}
    {p : Prog C R ε α} {f : α → Prog C R ε β} (hp : p.Sees exec P)
    (hf : ∀ steps a, P steps (.ok a) → (f a).Sees exec fun later => Q (steps ++ later))
    (he : ∀ steps e, P steps (.error e) → Q steps (.error e)) : (p.bind f).Sees exec Q := by
  induction p generalizing P Q with
  | pure a => exact hf [] a hp
  | raise e => exact he [] e hp
  | call c k ih =>
    intro x s
    exact ih _ (hp x s) (fun steps a ha => hf _ a ha) fun steps e ha => he _ e ha

theorem Sees.catching {P Q : List (Step C χ S) → Except ε α → Prop} {p : Prog C R ε α} {h : ε → Prog C R ε α}
    (hp : p.Sees exec P) (hok : ∀ steps a, P steps (.ok a) → Q steps (.ok a))
    (hh : ∀ steps e, P steps (.error e) → (h e).Sees exec fun later => Q (steps ++ later)) :
    (p.catching h).Sees exec Q := by
  induction p generalizing P Q with
  | pure a => exact hok [] a hp
  | raise e => exact hh [] e hp
  | call c k ih =>
    intro x s
    exact ih _ (hp x s) (fun steps a ha => hok _ a ha) fun steps e ha => hh _ e ha

/-- What follows a computation without calls sees only the values that it ends with. -/
theorem Sees.ofExcept_bind {Q : List (Step C χ S) → Except ε β → Prop} {x : Except ε α} {f : α → Prog C R ε β}
    (hf : ∀ a, x = .ok a → (f a).Sees exec Q) (he : ∀ e, x = .error e → Q [] (.error e)) :
    ((Prog.ofExcept x).bind f).Sees exec Q := by
  cases x with
  | ok a => exact hf a rfl
  | error e => exact he e rfl

/-- Nothing is asked of the calls. -/
theorem Sees.of_ends {G : (c : C) → R c → Prop} (good : ∀ c x s, G c (exec c x s).1) {Q : Except ε α → Prop}
    {p : Prog C R ε α} (hp : p.Ends G Q) : p.Sees exec fun _ o => Q o := by
  induction p with
  | pure a => exact hp
  | raise e => exact hp
  | call c k ih => exact fun x s => ih _ (hp _ (good c x s))

theorem Sees.any {Q : List (Step C χ S) → Except ε α → Prop} (hQ : ∀ steps o, Q steps o) (p : Prog C R ε α) :
    p.Sees exec Q := by
  induction p generalizing Q with
  | pure a => exact hQ _ _
  | raise e => exact hQ _ _
  | call c k ih => exact fun x s => ih _ fun steps o => hQ _ o

theorem Sees.and {P Q : List (Step C χ S) → Except ε α → Prop} {p : Prog C R ε α} (hP : p.Sees exec P) (hQ : p.Sees exec Q) :
    p.Sees exec fun steps o => P steps o ∧ Q steps o := by
  induction p generalizing P Q with
  | pure a => exact ⟨hP, hQ⟩
  | raise e => exact ⟨hP, hQ⟩
  | call c k ih => exact fun x s => ih _ (hP x s) (hQ x s)

theorem Calls.sees {P : C → Prop} {p : Prog C R ε α} (hp : p.Calls P) : p.Sees exec fun steps _ => ∀ x ∈ steps, P x.call := by
  induction p with
  | pure a => exact fun x hx => by cases hx
  | raise e => exact fun x hx => by cases hx
  | call c k ih =>
    intro x s
    refine (ih _ (hp.2 _)).mono fun steps o hsteps y hy => ?_
    rcases List.mem_cons.mp hy with rfl | hy
    · exact hp.1
    · exact hsteps y hy

/-- A program that has come to its end satisfies what it sees. -/
theorem Path.sees {p q : Prog C R ε α} {steps : List (Step C χ S)} (h : Path exec p steps q)
    {Q : List (Step C χ S) → Except ε α → Prop} (hp : p.Sees exec Q) :
    q.Sees exec fun later => Q (steps ++ later) := by
  induction h generalizing Q with
  | stop p => exact hp
  | @call c k x s steps q h ih => exact ih (hp x s)

end Sees

end Prog
