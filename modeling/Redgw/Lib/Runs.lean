import Mathlib.Logic.Basic

/-! # Runs of a machine

A machine moves by actions, each of which may be impossible in a state. A run takes a list of them,
and what every step keeps every run keeps. -/

namespace Runs

variable {S A : Type}

/-- The state after a list of actions; `none` when one of them is impossible. -/
def run (step : S → A → Option S) : S → List A → Option S
  | s, [] => some s
  | s, a :: as => (step s a).bind fun t => run step t as

variable {step : S → A → Option S}

@[simp] theorem run_nil (s : S) : run step s [] = some s := rfl

theorem run_cons {s u : S} {a : A} {as : List A} :
    run step s (a :: as) = some u ↔ ∃ t, step s a = some t ∧ run step t as = some u := by
  cases h : step s a with
  | none => simp [run, h]
  | some t => simp [run, h]

theorem run_append {s u : S} {as bs : List A} :
    run step s (as ++ bs) = some u ↔ ∃ t, run step s as = some t ∧ run step t bs = some u := by
  induction as generalizing s with
  | nil => simp
  | cons a as ih =>
    rw [List.cons_append, run_cons]
    constructor
    · rintro ⟨t, ht, hu⟩
      obtain ⟨v, hv, hvu⟩ := ih.mp hu
      exact ⟨v, run_cons.mpr ⟨t, ht, hv⟩, hvu⟩
    · rintro ⟨v, hv, hvu⟩
      obtain ⟨t, ht, htv⟩ := run_cons.mp hv
      exact ⟨t, ht, ih.mpr ⟨v, htv, hvu⟩⟩

/-- What every step keeps holds after every run. -/
theorem run_inv {I : S → Prop} (keep : ∀ s a t, step s a = some t → I s → I t) {as : List A} {s t : S}
    (h : run step s as = some t) (hs : I s) : I t := by
  induction as generalizing s with
  | nil =>
    cases h
    exact hs
  | cons a as ih =>
    obtain ⟨u, hu, hut⟩ := run_cons.mp h
    exact ih hut (keep s a u hu hs)

/-- What every step that the actions allow keeps holds after every run of such actions. -/
theorem run_inv_of {I : S → Prop} {P : A → Prop} (keep : ∀ s a t, P a → step s a = some t → I s → I t) {as : List A}
    (has : ∀ a ∈ as, P a) {s t : S} (h : run step s as = some t) (hs : I s) : I t := by
  induction as generalizing s with
  | nil =>
    cases h
    exact hs
  | cons a as ih =>
    obtain ⟨u, hu, hut⟩ := run_cons.mp h
    exact ih (fun b hb => has b (List.mem_cons_of_mem _ hb)) hut (keep s a u (has a List.mem_cons_self) hu hs)

/-- Each action of the list is allowed in the state where it is taken. -/
def Allowed (step : S → A → Option S) (P : S → A → Prop) : S → List A → Prop
  | _, [] => True
  | s, a :: as => P s a ∧ ∀ t, step s a = some t → Allowed step P t as

theorem allowed_cons {P : S → A → Prop} {s t : S} {a : A} {as : List A} (h : step s a = some t) :
    Allowed step P s (a :: as) ↔ P s a ∧ Allowed step P t as := by
  refine and_congr_right fun _ => ⟨fun hall => hall t h, fun ht u hu => ?_⟩
  rw [h] at hu
  cases hu
  exact ht

instance decidableAllowed (P : S → A → Prop) [∀ s a, Decidable (P s a)] : ∀ s as, Decidable (Allowed step P s as)
  | _, [] => isTrue trivial
  | s, a :: as =>
    have := fun t => decidableAllowed P t as
    inferInstanceAs (Decidable (P s a ∧ ∀ t ∈ step s a, Allowed step P t as))

theorem Allowed.and {P Q : S → A → Prop} {s : S} {as : List A} (hP : Allowed step P s as) (hQ : Allowed step Q s as) :
    Allowed step (fun s a => P s a ∧ Q s a) s as := by
  induction as generalizing s with
  | nil => trivial
  | cons a as ih => exact ⟨⟨hP.1, hQ.1⟩, fun t ht => ih (hP.2 t ht) (hQ.2 t ht)⟩

/-- What every allowed step keeps holds after every run of allowed steps. -/
theorem run_inv_at {I : S → Prop} {P : S → A → Prop} (keep : ∀ s a t, P s a → step s a = some t → I s → I t)
    {as : List A} {s t : S} (has : Allowed step P s as) (h : run step s as = some t) (hs : I s) : I t := by
  induction as generalizing s with
  | nil =>
    cases h
    exact hs
  | cons a as ih =>
    obtain ⟨u, hu, hut⟩ := run_cons.mp h
    exact ih (has.2 u hu) hut (keep s a u has.1 hu hs)

end Runs
