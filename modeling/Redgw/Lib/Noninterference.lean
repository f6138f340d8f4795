import Mathlib.Data.List.Basic

/-! # Noninterference by unwinding

A machine takes actions one after another and answers each. An observer sees the answers to its own
actions and a view of the state, given by a relation `E`. When the actions outside `keep` do not move
the view, and the kept ones respect it, the observer cannot tell a run from the run with the other
actions taken out, nor one initial state from another with the same view. -/

namespace Noninterference

variable {S A O : Type}

/-- The answers of a machine to a list of actions. -/
def outputs (step : A → S → O × S) : List A → S → List (A × O)
  | [], _ => []
  | a :: as, s => (a, (step a s).1) :: outputs step as (step a s).2

/-- The state after a list of actions. -/
def final (step : A → S → O × S) : List A → S → S
  | [], s => s
  | a :: as, s => final step as (step a s).2

variable {step : A → S → O × S}

@[simp] theorem outputs_nil (s : S) : outputs step [] s = [] := rfl
@[simp] theorem outputs_cons (a : A) (as : List A) (s : S) :
    outputs step (a :: as) s = (a, (step a s).1) :: outputs step as (step a s).2 := rfl
@[simp] theorem final_nil (s : S) : final step [] s = s := rfl
@[simp] theorem final_cons (a : A) (as : List A) (s : S) :
    final step (a :: as) s = final step as (step a s).2 := rfl

/-- The unwinding theorem. `own` marks the observer's actions, `keep` the actions that stay. -/
theorem purge {E : S → S → Prop} {own keep : A → Bool}
    (own_keep : ∀ a, own a = true → keep a = true)
    (silent : ∀ a s t, keep a = false → E s t → E (step a s).2 t)
    (consistent : ∀ a s t, keep a = true → E s t → E (step a s).2 (step a t).2)
    (answers : ∀ a s t, own a = true → E s t → (step a s).1 = (step a t).1)
    (as : List A) {s t : S} (hst : E s t) :
    (outputs step as s).filter (fun x => own x.1) =
      (outputs step (as.filter keep) t).filter (fun x => own x.1) ∧
    E (final step as s) (final step (as.filter keep) t) := by
  induction as generalizing s t with
  | nil => exact ⟨rfl, hst⟩
  | cons a as ih =>
    cases hk : keep a with
    | false =>
      have ho : own a = false := by
        cases ho : own a
        · rfl
        · rw [own_keep a ho] at hk
          cases hk
      obtain ⟨h1, h2⟩ := ih (silent a s t hk hst)
      simp only [outputs_cons, List.filter_cons, ho, hk, Bool.false_eq_true, ↓reduceIte, final_cons]
      exact ⟨h1, h2⟩
    | true =>
      obtain ⟨h1, h2⟩ := ih (consistent a s t hk hst)
      simp only [outputs_cons, List.filter_cons, hk, ↓reduceIte, final_cons]
      refine ⟨?_, h2⟩
      cases ho : own a
      · simpa only [Bool.false_eq_true, ↓reduceIte] using h1
      · simp only [↓reduceIte, answers a s t ho hst, h1]

end Noninterference
