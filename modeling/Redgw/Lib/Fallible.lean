import Mathlib.Logic.Basic

/-! # Fallible computations

What a result of a computation in `Except` says about its parts. -/

namespace Fallible

variable {ε α β : Type}

theorem bind_ok {x : Except ε α} {f : α → Except ε β} {b : β} :
    x >>= f = .ok b ↔ ∃ a, x = .ok a ∧ f a = .ok b := by
  cases x with
  | error e =>
    constructor
    · intro h
      cases h
    · rintro ⟨_, h, -⟩
      cases h
  | ok a =>
    constructor
    · intro h
      exact ⟨a, rfl, h⟩
    · rintro ⟨_, h, h'⟩
      cases h
      exact h'

/-- Every result of a mapped computation comes from an element. -/
theorem mapM_ok {g : α → Except ε β} {xs : List α} {ys : List β} (h : xs.mapM g = .ok ys) :
    ∀ y ∈ ys, ∃ x ∈ xs, g x = .ok y := by
  induction xs generalizing ys with
  | nil =>
    cases h
    intro y hy
    cases hy
  | cons x xs ih =>
    rw [List.mapM_cons] at h
    obtain ⟨y, hx, h⟩ := bind_ok.mp h
    obtain ⟨zs, hxs, h⟩ := bind_ok.mp h
    cases h
    intro z hz
    rcases List.mem_cons.mp hz with rfl | hz
    · exact ⟨x, List.mem_cons_self, hx⟩
    · obtain ⟨w, hw, hg⟩ := ih hxs z hz
      exact ⟨w, List.mem_cons_of_mem _ hw, hg⟩

theorem mapM_length {g : α → Except ε β} {xs : List α} {ys : List β} (h : xs.mapM g = .ok ys) :
    ys.length = xs.length := by
  induction xs generalizing ys with
  | nil =>
    cases h
    rfl
  | cons x xs ih =>
    rw [List.mapM_cons] at h
    obtain ⟨y, -, h⟩ := bind_ok.mp h
    obtain ⟨zs, hxs, h⟩ := bind_ok.mp h
    cases h
    rw [List.length_cons, List.length_cons, ih hxs]

/-- A checked map fails at the first element that does not pass. -/
theorem mapM_check (p : α → Bool) (f : α → β) (e : α → ε) (xs : List α) :
    xs.mapM (fun x => if p x then Except.ok (f x) else .error (e x)) =
      (xs.find? fun x => !p x).elim (.ok (xs.map f)) fun x => .error (e x) := by
  induction xs with
  | nil => rfl
  | cons x xs ih =>
    rw [List.mapM_cons, ih, List.find?_cons]
    cases p x with
    | false => rfl
    | true => cases h : xs.find? fun x => !p x <;> rfl

/-! ### Success -/

/-- The computation has a result. -/
def Succeeds (x : Except ε α) : Prop := ∃ a, x = .ok a

theorem succeeds_ok (a : α) : Succeeds (.ok a : Except ε α) := ⟨a, rfl⟩

theorem not_succeeds_error (e : ε) : ¬Succeeds (.error e : Except ε α) := by
  rintro ⟨a, h⟩
  cases h

/-- What follows succeeds or not whatever the result is. -/
theorem succeeds_bind {x : Except ε α} {f : α → Except ε β} {P : Prop} (h : ∀ a, Succeeds (f a) ↔ P) :
    Succeeds (x >>= f) ↔ Succeeds x ∧ P := by
  cases x with
  | error e =>
    constructor
    · intro hbind
      exact absurd hbind (not_succeeds_error e)
    · rintro ⟨hx, -⟩
      exact absurd hx (not_succeeds_error e)
  | ok a => exact (h a).trans (and_iff_right (succeeds_ok a)).symm

/-- A last step without checks. -/
theorem succeeds_map {x : Except ε α} {f : α → β} : Succeeds (x >>= fun a => pure (f a)) ↔ Succeeds x :=
  (succeeds_bind fun a => iff_true_intro (succeeds_ok (f a))).trans (and_iff_left trivial)

theorem succeeds_forM {f : α → Except ε PUnit} {xs : List α} : Succeeds (xs.forM f) ↔ ∀ x ∈ xs, Succeeds (f x) := by
  induction xs with
  | nil => exact iff_of_true (succeeds_ok _) nofun
  | cons x xs ih =>
    rw [List.forall_mem_cons, ← ih]
    exact succeeds_bind fun _ => Iff.rfl

theorem succeeds_mapM {g : α → Except ε β} {xs : List α} : Succeeds (xs.mapM g) ↔ ∀ x ∈ xs, Succeeds (g x) := by
  induction xs with
  | nil => exact iff_of_true (succeeds_ok _) nofun
  | cons x xs ih =>
    rw [List.forall_mem_cons, ← ih, List.mapM_cons]
    exact succeeds_bind fun _ => succeeds_map

/-- Every result satisfies `P`. -/
def Yields (P : α → Prop) (x : Except ε α) : Prop := ∀ a, x = .ok a → P a

theorem Yields.bind {P : β → Prop} {x : Except ε α} {f : α → Except ε β} (h : ∀ a, x = .ok a → Yields P (f a)) :
    Yields P (x >>= f) := by
  intro b hb
  obtain ⟨a, ha, hb⟩ := bind_ok.mp hb
  exact h a ha b hb

theorem yields_pure {P : α → Prop} {a : α} (h : P a) : Yields P (pure a : Except ε α) := by
  intro b hb
  cases hb
  exact h

theorem yields_throw {P : α → Prop} {e : ε} : Yields P (throw e : Except ε α) := by
  intro b hb
  cases hb

theorem Yields.mono {P Q : α → Prop} (hPQ : ∀ a, P a → Q a) {x : Except ε α} (h : Yields P x) : Yields Q x :=
  fun a ha => hPQ a (h a ha)

end Fallible
