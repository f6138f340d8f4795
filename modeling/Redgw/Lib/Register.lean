import Mathlib.Data.List.Induction

/-! # Registers

A value that is put, taken away and looked at by many, and that may run out. Whoever puts a value only where there is none
holds the register as a lock: nobody else gets it before it is dropped or has run out. -/

namespace Register

/-- A value, and the time at which it runs out. -/
structure Kept (α : Type) where
  value : α
  deadline : Option Nat
deriving DecidableEq

/-- What is done to the register. A value is put for some time or for good, or only where there is none. -/
inductive Op (α : Type)
  | put (value : α) (life : Option Nat)
  | putNew (value : α) (life : Option Nat)
  | drop
  | look
deriving DecidableEq

structure Turn (α : Type) where
  op : Op α
  time : Nat
deriving DecidableEq

variable {α : Type}

/-- The value that is found at this time. -/
def found (now : Nat) (s : Option (Kept α)) : Option α :=
  (s.filter fun x => x.deadline.all fun d => decide (now < d)).map (·.value)

def Turn.apply (s : Option (Kept α)) (e : Turn α) : Option (Kept α) :=
  match e.op with
  | .put v life => some ⟨v, life.map (e.time + ·)⟩
  | .putNew v life => if (found e.time s).isNone then some ⟨v, life.map (e.time + ·)⟩ else s
  | .drop => none
  | .look => s

/-- What these turns leave. -/
def after (turns : List (Turn α)) : Option (Kept α) := turns.foldl Turn.apply none

/-- The turn puts the value, after these. -/
def Turn.Puts (e : Turn α) (before : List (Turn α)) (v : α) (life : Option Nat) : Prop :=
  e.op = .put v life ∨ e.op = .putNew v life ∧ found e.time (after before) = none

/-- The turn leaves the register as it is, after these. -/
def Turn.Idle (e : Turn α) (before : List (Turn α)) : Prop :=
  e.op = .look ∨ ∃ v life, e.op = .putNew v life ∧ found e.time (after before) ≠ none

/-- None of the turns does anything. -/
def Still (before turns : List (Turn α)) : Prop := ∀ pre e post, turns = pre ++ e :: post → e.Idle (before ++ pre)

/-- The register was dropped in these turns, or what was put last has run out. -/
def Released (before turns : List (Turn α)) (now : Nat) : Prop :=
  (∃ e ∈ turns, e.op = .drop) ∨ ∃ pre e post v life, turns = pre ++ e :: post ∧ e.Puts (before ++ pre) v (some life) ∧
    Still (before ++ pre ++ [e]) post ∧ e.time + life ≤ now

section Turns
variable {turns before : List (Turn α)} {e : Turn α} {v : α} {life : Option Nat} {now : Nat} {x : Kept α}

theorem after_snoc (turns : List (Turn α)) (e : Turn α) : after (turns ++ [e]) = e.apply (after turns) := by
  simp [after]

theorem found_none_iff {s : Option (Kept α)} : found now s = none ↔ ∀ x, s = some x → ∃ d, x.deadline = some d ∧ d ≤ now := by
  unfold found
  rw [Option.map_eq_none_iff, Option.filter_eq_none_iff]
  refine forall₂_congr fun x _ => ?_
  cases x.deadline <;> simp

theorem Turn.Puts.after (h : e.Puts before v life) : Register.after (before ++ [e]) = some ⟨v, life.map (e.time + ·)⟩ := by
  rw [after_snoc]
  unfold Turn.apply
  rcases h with h | ⟨h, hnone⟩
  · rw [h]
  · rw [h]
    simp [hnone]

theorem Turn.Idle.after (h : e.Idle before) : Register.after (before ++ [e]) = Register.after before := by
  rw [after_snoc]
  unfold Turn.apply
  rcases h with h | ⟨v, life, h, hsome⟩
  · rw [h]
  · rw [h]
    simp [hsome]

theorem still_nil (before : List (Turn α)) : Still before [] := by
  intro pre e post h
  cases pre <;> cases h

theorem Still.snoc (h : Still before turns) (he : e.Idle (before ++ turns)) : Still before (turns ++ [e]) := by
  intro pre e' post heq
  rcases List.eq_nil_or_concat post with rfl | ⟨post', e'', rfl⟩
  · obtain ⟨rfl, he'⟩ := List.append_inj' heq rfl
    cases he'
    exact he
  · rw [List.concat_eq_append, ← List.cons_append, ← List.append_assoc] at heq
    exact h pre e' post' (List.append_inj_left' heq rfl)

theorem Still.after (h : Still before turns) : Register.after (before ++ turns) = Register.after before := by
  induction turns using List.reverseRecOn with
  | nil => rw [List.append_nil]
  | append_singleton turns e ih =>
    have hturns : Still before turns := fun pre e' post heq => h pre e' (post ++ [e]) (by rw [heq]; simp)
    rw [← List.append_assoc, (h turns e [] rfl).after]
    exact ih hturns

/-- What is kept was put by a turn since which nothing has been done. -/
theorem kept_put (h : after turns = some x) : ∃ pre e post life, turns = pre ++ e :: post ∧ e.Puts pre x.value life ∧
    x.deadline = life.map (e.time + ·) ∧ Still (pre ++ [e]) post := by
  induction turns using List.reverseRecOn generalizing x with
  | nil => cases h
  | append_singleton turns e ih =>
    have hput : ∀ v life, e.Puts turns v life → ∃ pre e' post life, turns ++ [e] = pre ++ e' :: post ∧ e'.Puts pre x.value life ∧
        x.deadline = life.map (e'.time + ·) ∧ Still (pre ++ [e']) post := by
      intro v life hputs
      rw [hputs.after] at h
      cases h
      exact ⟨turns, e, [], life, rfl, hputs, rfl, still_nil _⟩
    have hidle : e.Idle turns → ∃ pre e' post life, turns ++ [e] = pre ++ e' :: post ∧ e'.Puts pre x.value life ∧
        x.deadline = life.map (e'.time + ·) ∧ Still (pre ++ [e']) post := by
      intro hidle
      rw [hidle.after] at h
      obtain ⟨pre, e', post, life, rfl, hputs, hd, hstill⟩ := ih h
      refine ⟨pre, e', post ++ [e], life, by simp, hputs, hd, hstill.snoc ?_⟩
      rw [List.append_assoc]
      exact hidle
    cases hop : e.op with
    | put v life => exact hput v life (Or.inl hop)
    | putNew v life =>
      by_cases hnone : found e.time (after turns) = none
      · exact hput v life (Or.inr ⟨hop, hnone⟩)
      · exact hidle (Or.inr ⟨v, life, hop, hnone⟩)
    | drop =>
      rw [after_snoc, Turn.apply, hop] at h
      cases h
    | look => exact hidle (Or.inl hop)

theorem not_idle_of_puts (h : e.Puts before v life) : ¬e.Idle before := by
  intro hidle
  rcases h with h | ⟨h, hnone⟩
  · rcases hidle with h' | ⟨w, life', h', -⟩
    · rw [h] at h'
      cases h'
    · rw [h] at h'
      cases h'
  · rcases hidle with h' | ⟨w, life', -, hsome⟩
    · rw [h] at h'
      cases h'
    · exact hsome hnone

/-- Only a drop empties the register. -/
theorem dropped (hsome : after before ≠ none) (hnone : after (before ++ turns) = none) : ∃ e ∈ turns, e.op = .drop := by
  induction turns using List.reverseRecOn with
  | nil =>
    rw [List.append_nil] at hnone
    exact absurd hnone hsome
  | append_singleton turns e ih =>
    rw [← List.append_assoc, after_snoc, Turn.apply] at hnone
    cases hop : e.op with
    | drop => exact ⟨e, by simp, hop⟩
    | look =>
      rw [hop] at hnone
      obtain ⟨e', he', hdrop⟩ := ih hnone
      exact ⟨e', by simp [he'], hdrop⟩
    | put w life =>
      rw [hop] at hnone
      cases hnone
    | putNew w life =>
      rw [hop] at hnone
      dsimp only at hnone
      split at hnone
      · cases hnone
      · obtain ⟨e', he', hdrop⟩ := ih hnone
        exact ⟨e', by simp [he'], hdrop⟩

/-- Nothing is found some time after a turn has put a value: since then it was released. -/
theorem released (he : e.Puts before v life) (hnone : found now (after (before ++ e :: turns)) = none) :
    Released before (e :: turns) now := by
  cases hs : after (before ++ e :: turns) with
  | none =>
    have hput : after (before ++ [e]) ≠ none := by
      rw [he.after]
      exact Option.some_ne_none _
    rw [List.append_cons] at hs
    obtain ⟨d, hd, hdrop⟩ := dropped hput hs
    exact Or.inl ⟨d, List.mem_cons_of_mem _ hd, hdrop⟩
  | some x =>
    obtain ⟨d, hd, hle⟩ := found_none_iff.mp hnone x hs
    obtain ⟨pre, c, post, life', hturns, hputs, hdeadline, hstill⟩ := kept_put hs
    rw [hd] at hdeadline
    obtain ⟨l, rfl, rfl⟩ := Option.map_eq_some_iff.mp hdeadline.symm
    refine Or.inr ?_
    -- The last turn that put something is not before `e`, which would have left it alone.
    rcases List.append_eq_append_iff.mp hturns with ⟨pre', rfl, htail⟩ | ⟨rest, hbefore, hrest⟩
    · exact ⟨pre', c, post, _, l, htail, hputs, hstill, hle⟩
    · rcases rest with _ | ⟨c', rest⟩
      · rw [List.append_nil] at hbefore
        subst hbefore
        exact ⟨[], c, post, _, l, hrest.symm, by rwa [List.append_nil], by rwa [List.append_nil], hle⟩
      · rw [List.cons_append] at hrest
        obtain ⟨rfl, hpost⟩ := List.cons.inj hrest
        rw [hbefore] at he
        have he' : e.Puts (pre ++ [c] ++ rest) v life := by
          rw [List.append_assoc]
          exact he
        exact absurd (hstill rest e turns hpost) (not_idle_of_puts he')

end Turns

end Register
