import Redgw.Lib.Pool

/-! # Emissions

Some calls send a message out. A program with one message sends it at most once and nothing else, and it has sent it
when it comes to a good end. What programs send side by side is what each of them sends. -/

namespace Prog

variable {C : Type} {R : C → Type} {ε α β χ S X : Type}

section Emits
variable (emit : C → Option X) (G : (c : C) → R c → Prop)

/-- `left` is what the program may still send, as long as each reply satisfies `G`; at a good end nothing is left. -/
def Emits (good : Except ε α → Prop) : Option X → Prog C R ε α → Prop
  | left, .pure a => good (.ok a) → left = none
  | left, .raise e => good (.error e) → left = none
  | left, .call c k =>
    emit c = none ∧ (∀ r, G c r → Emits good left (k r)) ∨ left ≠ none ∧ emit c = left ∧ ∀ r, G c r → Emits good none (k r)

/-- The program has come to a good end. -/
def EndsWell (good : Except ε α → Prop) : Prog C R ε α → Prop
  | .pure a => good (.ok a)
  | .raise e => good (.error e)
  | .call _ _ => False

/-- What calls have sent. -/
def emissions (steps : List (Step C χ S)) : List X := steps.filterMap fun x => emit x.call

variable {emit G} {good : Except ε α → Prop} {left : Option X} {p q : Prog C R ε α}

theorem emissions_cons (x : Step C χ S) (steps : List (Step C χ S)) :
    emissions emit (x :: steps) = (emit x.call).toList ++ emissions emit steps := by
  cases h : emit x.call <;> simp [emissions, h]

theorem emissions_append (steps later : List (Step C χ S)) :
    emissions emit (steps ++ later) = emissions emit steps ++ emissions emit later := List.filterMap_append

theorem Emits.endsWell (h : p.Emits emit G good left) (hp : p.EndsWell good) : left = none := by
  cases p with
  | pure a => exact h hp
  | raise e => exact h hp
  | call c k => exact hp.elim

theorem Emits.of_calls (hp : p.CallsOn G fun c => emit c = none) (hend : p.Ends G fun x => good x → left = none) :
    p.Emits emit G good left := by
  induction p with
  | pure a => exact hend
  | raise e => exact hend
  | call c k ih => exact Or.inl ⟨hp.1, fun r hr => ih r (hp.2 r hr) (hend r hr)⟩

/-- What follows sends nothing, and its good ends are those of the program. -/
theorem Emits.bind {good' : Except ε β → Prop} {f : α → Prog C R ε β} (h : p.Emits emit G good left)
    (hcalls : ∀ a, (f a).CallsOn G fun c => emit c = none) (hends : ∀ a, (f a).Ends G fun x => good' x → good (.ok a))
    (he : ∀ e, good' (.error e) → good (.error e)) : (p.bind f).Emits emit G good' left := by
  induction p generalizing left with
  | pure a =>
    refine Emits.of_calls (hcalls a) ?_
    exact (hends a).mono fun x hx (hgood : good' x) => h (hx hgood)
  | raise e => exact fun hgood => h (he e hgood)
  | call c k ih =>
    rcases h with ⟨hnone, hk⟩ | ⟨hleft, hsome, hk⟩
    · exact Or.inl ⟨hnone, fun r hr => ih r (hk r hr)⟩
    · exact Or.inr ⟨hleft, hsome, fun r hr => ih r (hk r hr)⟩

theorem Emits.ofExcept_bind {x : Except ε β} {f : β → Prog C R ε α} (hf : ∀ b, x = .ok b → (f b).Emits emit G good left)
    (he : ∀ e, x = .error e → ¬good (.error e)) : ((ofExcept x).bind f).Emits emit G good left := by
  cases x with
  | ok b => exact hf b rfl
  | error e => exact fun hgood => absurd hgood (he e rfl)

/-- On its way the program has sent what it no longer has. -/
theorem Emits.path {exec : (c : C) → χ → S → R c × S} {steps : List (Step C χ S)} (hpath : Path exec p steps q)
    (hG : ∀ c x s, G c (exec c x s).1) (h : p.Emits emit G good left) :
    ∃ rest, q.Emits emit G good rest ∧ emissions emit steps ++ rest.toList = left.toList := by
  induction hpath generalizing left with
  | stop p => exact ⟨left, h, rfl⟩
  | @call c k x s steps q hpath ih =>
    rcases h with ⟨hnone, hk⟩ | ⟨hleft, hsome, hk⟩
    · obtain ⟨rest, hrest, heq⟩ := ih (hk _ (hG c x s))
      refine ⟨rest, hrest, ?_⟩
      rw [emissions_cons, hnone]
      exact heq
    · obtain ⟨rest, hrest, heq⟩ := ih (hk _ (hG c x s))
      obtain ⟨y, rfl⟩ := Option.ne_none_iff_exists'.mp hleft
      refine ⟨rest, hrest, ?_⟩
      rw [emissions_cons, hsome, List.append_assoc, heq]
      rfl

end Emits

end Prog

namespace Pool
open Prog

variable {C : Type} {R : C → Type} {ε α χ S Q X : Type}

/-- What has been sent, program by program: each has sent its own message or nothing, and its own message when it has
    come to a good end. -/
structure Emitted (emit : C → Option X) (good : Except ε α → Prop) (message : Q → Option X) (qs : List Q)
    (t : Pool C R ε α (S × List (Step C χ S))) (outs : List (List X)) : Prop where
  all : (emissions emit t.state.2).Perm outs.flatten
  length : outs.length = qs.length
  own : ∀ (i : Nat) q (out : List X), qs[i]? = some q → outs[i]? = some out → out.Sublist (message q).toList
  ended : ∀ (i : Nat) q out (p : Prog C R ε α), qs[i]? = some q → outs[i]? = some out → t.programs[i]? = some p → p.EndsWell good →
    out = (message q).toList

variable {exec : (c : C) → χ → S → R c × S} {body : Q → Prog C R ε α} {emit : C → Option X} {G : (c : C) → R c → Prop}
  {good : Except ε α → Prop} {message : Q → Option X} {t : Pool C R ε α (S × List (Step C χ S))}

theorem Shares.emitted {own : List (Q × List (Step C χ S))} (ht : t.Shares exec body own) (hG : ∀ c x s, G c (exec c x s).1)
    (hbody : ∀ q, (body q).Emits emit G good (message q)) :
    t.Emitted emit good message (own.map Prod.fst) (own.map fun y => emissions emit y.2) := by
  have hown : ∀ (i : Nat) q (out : List X), (own.map Prod.fst)[i]? = some q → (own.map fun y => emissions emit y.2)[i]? = some out →
      ∃ p : Prog C R ε α, t.programs[i]? = some p ∧ ∃ rest : Option X, p.Emits emit G good rest ∧ out ++ rest.toList = (message q).toList := by
    intro i q out hq hout
    rw [List.getElem?_map, Option.map_eq_some_iff] at hq hout
    obtain ⟨y, hy, rfl⟩ := hq
    obtain ⟨y', hy', rfl⟩ := hout
    rw [hy] at hy'
    cases hy'
    obtain ⟨hlt, hget⟩ := List.getElem?_eq_some_iff.mp hy
    have hlt' : i < t.programs.length := ht.came.length_eq ▸ hlt
    have hpath := List.forall₂_iff_get.mp ht.came |>.2 i hlt hlt'
    rw [List.get_eq_getElem, List.get_eq_getElem, hget] at hpath
    exact ⟨_, List.getElem?_eq_getElem hlt', (hbody y.1).path hpath hG⟩
  refine ⟨?_, by simp, fun i q out hq hout => ?_, fun i q out p hq hout hp hend => ?_⟩
  · rw [← List.flatMap_def]
    refine (ht.log.filterMap _).trans ?_
    rw [List.filterMap_flatMap]
    rfl
  · obtain ⟨p, -, rest, -, heq⟩ := hown i q out hq hout
    rw [← heq]
    exact List.sublist_append_left _ _
  · obtain ⟨p', hp', rest, hrest, heq⟩ := hown i q out hq hout
    rw [hp] at hp'
    cases hp'
    rw [hrest.endsWell hend, Option.toList_none, List.append_nil] at heq
    exact heq

/-- No message has been sent twice. -/
theorem Emitted.subperm {qs : List Q} {outs : List (List X)} (h : t.Emitted emit good message qs outs) :
    (emissions emit t.state.2).Subperm (qs.filterMap message) := by
  refine ⟨outs.flatten, h.all.symm, ?_⟩
  have hown := h.own
  have hlength := h.length
  clear h
  induction qs generalizing outs with
  | nil =>
    rw [List.length_eq_zero_iff.mp hlength]
    exact List.Sublist.refl _
  | cons q qs ih =>
    obtain ⟨out, outs, rfl⟩ := List.exists_cons_of_length_eq_add_one hlength
    have hrest := @ih outs (fun i => hown (i + 1)) (Nat.succ.inj hlength)
    have hfirst := hown 0 q out rfl rfl
    rw [List.flatten_cons, List.filterMap_cons]
    cases hm : message q with
    | none =>
      rw [hm] at hfirst
      rw [List.sublist_nil.mp hfirst]
      exact hrest
    | some x =>
      rw [hm] at hfirst
      exact hfirst.append hrest

end Pool
