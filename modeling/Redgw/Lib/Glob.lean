import Mathlib.Data.List.Infix

/-! # Glob patterns

Patterns over characters: `*` stands for any text, `?` for any one character, and every other
character for itself. -/

namespace Glob

/-- Whether a text matches a pattern. -/
def matches? : List Char → List Char → Bool
  | [], s => s.isEmpty
  | '*' :: p, s => s.tails.any (matches? p)
  | '?' :: p, s => match s with
    | [] => false
    | _ :: t => matches? p t
  | c :: p, s => match s with
    | [] => false
    | d :: t => d == c && matches? p t

/-- A text without wildcards. -/
def Literal (w : List Char) : Prop := '*' ∉ w ∧ '?' ∉ w

instance (w : List Char) : Decidable (Literal w) := inferInstanceAs (Decidable (_ ∧ _))

@[simp] theorem matches?_nil {s : List Char} : matches? [] s = true ↔ s = [] := List.isEmpty_iff

theorem matches?_star {p s : List Char} : matches? ('*' :: p) s = true ↔ ∃ a b, s = a ++ b ∧ matches? p b = true := by
  have hstar : matches? ('*' :: p) s = s.tails.any (matches? p) := rfl
  simp only [hstar, List.any_eq_true, List.mem_tails]
  constructor
  · rintro ⟨b, ⟨a, rfl⟩, hb⟩
    exact ⟨a, b, rfl, hb⟩
  · rintro ⟨a, b, rfl, hb⟩
    exact ⟨b, ⟨a, rfl⟩, hb⟩

theorem matches?_any {p s : List Char} : matches? ('?' :: p) s = true ↔ ∃ c t, s = c :: t ∧ matches? p t = true := by
  cases s with
  | nil => exact ⟨fun h => (by cases h), fun ⟨_, _, h, _⟩ => (by cases h)⟩
  | cons c t =>
    have hany : matches? ('?' :: p) (c :: t) = matches? p t := rfl
    simp [hany]

theorem matches?_char {c : Char} {p s : List Char} (h₁ : c ≠ '*') (h₂ : c ≠ '?') :
    matches? (c :: p) s = true ↔ ∃ t, s = c :: t ∧ matches? p t = true := by
  cases s <;> simp [matches?, and_assoc]

@[simp] theorem matches?_star_self (s : List Char) : matches? ['*'] s = true :=
  matches?_star.mpr ⟨s, [], by simp, by simp⟩

/-- A pattern in two parts matches a text in two parts. -/
theorem matches?_append {p q s : List Char} :
    matches? (p ++ q) s = true ↔ ∃ a b, s = a ++ b ∧ matches? p a = true ∧ matches? q b = true := by
  induction p generalizing s with
  | nil => simp
  | cons c p ih =>
    rw [List.cons_append]
    by_cases h₁ : c = '*'
    · subst h₁
      simp only [matches?_star, ih]
      constructor
      · rintro ⟨a, b, rfl, x, y, rfl, hx, hy⟩
        exact ⟨a ++ x, y, by simp, ⟨a, x, rfl, hx⟩, hy⟩
      · rintro ⟨_, y, rfl, ⟨a, x, rfl, hx⟩, hy⟩
        exact ⟨a, x ++ y, by simp, x, y, rfl, hx, hy⟩
    by_cases h₂ : c = '?'
    · subst h₂
      simp only [matches?_any, ih]
      constructor
      · rintro ⟨d, _, rfl, x, y, rfl, hx, hy⟩
        exact ⟨d :: x, y, rfl, ⟨d, x, rfl, hx⟩, hy⟩
      · rintro ⟨_, y, rfl, ⟨d, x, rfl, hx⟩, hy⟩
        exact ⟨d, x ++ y, rfl, x, y, rfl, hx, hy⟩
    · simp only [matches?_char h₁ h₂, ih]
      constructor
      · rintro ⟨_, rfl, x, y, rfl, hx, hy⟩
        exact ⟨c :: x, y, rfl, ⟨x, rfl, hx⟩, hy⟩
      · rintro ⟨_, y, rfl, ⟨x, rfl, hx⟩, hy⟩
        exact ⟨x ++ y, rfl, x, y, rfl, hx, hy⟩

theorem Literal.cons {c : Char} {w : List Char} (h : Literal (c :: w)) : c ≠ '*' ∧ c ≠ '?' ∧ Literal w := by
  simp only [Literal, List.mem_cons, not_or] at h
  exact ⟨Ne.symm h.1.1, Ne.symm h.2.1, h.1.2, h.2.2⟩

/-- A literal matches itself only. -/
theorem matches?_literal {w s : List Char} (h : Literal w) : matches? w s = true ↔ s = w := by
  induction w generalizing s with
  | nil => simp
  | cons c w ih =>
    obtain ⟨h₁, h₂, hw⟩ := h.cons
    rw [matches?_char h₁ h₂]
    constructor
    · rintro ⟨t, rfl, ht⟩
      rw [(ih hw).mp ht]
    · rintro rfl
      exact ⟨w, rfl, (ih hw).mpr rfl⟩

/-- A literal before a pattern is a literal before the text. -/
theorem matches?_literal_append {w p s : List Char} (h : Literal w) :
    matches? (w ++ p) s = true ↔ ∃ t, s = w ++ t ∧ matches? p t = true := by
  simp only [matches?_append, matches?_literal h]
  constructor
  · rintro ⟨_, t, rfl, rfl, ht⟩
    exact ⟨t, rfl, ht⟩
  · rintro ⟨t, rfl, ht⟩
    exact ⟨w, t, rfl, rfl, ht⟩

/-- A field of a pattern, a literal or a star, in front of a separator. The star may take in separators. -/
theorem matches?_field {w p s : List Char} {sep : Char} (hw : w = ['*'] ∨ Literal w) (hs : Literal [sep]) :
    matches? (w ++ sep :: p) s = true ↔
      ∃ a t, s = a ++ sep :: t ∧ (w = ['*'] ∨ a = w) ∧ matches? p t = true := by
  have hsep : ∀ t, matches? (sep :: p) t = true ↔ ∃ u, t = sep :: u ∧ matches? p u = true := fun t =>
    matches?_char hs.cons.1 hs.cons.2.1
  rw [matches?_append]
  constructor
  · rintro ⟨a, t, rfl, ha, ht⟩
    obtain ⟨u, rfl, hu⟩ := (hsep t).mp ht
    refine ⟨a, u, rfl, ?_, hu⟩
    rcases hw with hstar | hlit
    · exact Or.inl hstar
    · exact Or.inr ((matches?_literal hlit).mp ha)
  · rintro ⟨a, t, rfl, ha, ht⟩
    refine ⟨a, sep :: t, rfl, ?_, (hsep _).mpr ⟨t, rfl, ht⟩⟩
    rcases ha with rfl | rfl
    · exact matches?_star_self a
    · rcases hw with rfl | hlit
      · exact matches?_star_self _
      · exact (matches?_literal hlit).mpr rfl

/-- Every pattern matches some text: the one that reads its wildcards literally. -/
theorem matches?_self (p : List Char) : matches? p p = true := by
  induction p with
  | nil => simp
  | cons c p ih =>
    by_cases h₁ : c = '*'
    · subst h₁
      exact matches?_star.mpr ⟨['*'], p, rfl, ih⟩
    by_cases h₂ : c = '?'
    · subst h₂
      exact matches?_any.mpr ⟨'?', p, rfl, ih⟩
    · exact (matches?_char h₁ h₂).mpr ⟨p, rfl, ih⟩

/-! ### Patterns that absorb a prefix -/

/-- The wildcards that the pattern begins with. -/
def leading : List Char → List Char := List.takeWhile fun c => c == '*' || c == '?'

/-- The pattern matches every text that ends in a match. -/
def Absorbs (p : List Char) : Prop := ∀ w s, matches? p s = true → matches? p (w ++ s) = true

theorem absorbs_star (p : List Char) : Absorbs ('*' :: p) := by
  intro w s hs
  obtain ⟨a, b, rfl, hb⟩ := matches?_star.mp hs
  exact matches?_star.mpr ⟨w ++ a, b, by simp, hb⟩

theorem absorbs_any {p : List Char} (h : Absorbs p) : Absorbs ('?' :: p) := by
  intro w s hs
  obtain ⟨c, t, rfl, ht⟩ := matches?_any.mp hs
  cases w with
  | nil => exact hs
  | cons d w => exact matches?_any.mpr ⟨d, w ++ c :: t, rfl, by simpa using h (w ++ [c]) t ht⟩

theorem absorbs_of_leading {p : List Char} (h : '*' ∈ leading p) : Absorbs p := by
  induction p with
  | nil => cases h
  | cons c p ih =>
    by_cases h₁ : c = '*'
    · exact h₁ ▸ absorbs_star p
    by_cases h₂ : c = '?'
    · subst h₂
      exact absorbs_any (ih (by simpa [leading] using h))
    · simp [leading, h₁, h₂] at h

/-- A pattern whose leading wildcards are all `?` does not match a match behind a long enough
    run of a character other than the one that the pattern wants there. -/
theorem not_matches?_of_leading {p : List Char} (h : '*' ∉ leading p) :
    ∃ c, c ≠ ':' ∧ ∀ n s, p.length ≤ n → matches? p (List.replicate n c ++ ':' :: s) = false := by
  induction p with
  | nil => exact ⟨'a', by decide, fun n s _ => by cases n <;> simp [matches?, List.replicate]⟩
  | cons d p ih =>
    by_cases h₁ : d = '*'
    · simp [leading, h₁] at h
    by_cases h₂ : d = '?'
    · subst h₂
      obtain ⟨c, hc, hn⟩ := ih (by simpa [leading] using h)
      refine ⟨c, hc, fun n s hle => ?_⟩
      cases n with
      | zero => simp at hle
      | succ n => simpa [List.replicate_succ, matches?] using hn n s (by simpa using hle)
    · -- Any character other than `d` at the first place rules the match out.
      refine ⟨if d = 'a' then 'b' else 'a', by split <;> decide, fun n s hle => ?_⟩
      cases n with
      | zero => simp at hle
      | succ n =>
        simp only [List.replicate_succ, List.cons_append, matches?, Bool.and_eq_false_imp, beq_iff_eq]
        intro hd
        split at hd
        · rename_i ha; rw [ha] at hd; exact absurd hd (by decide)
        · rename_i ha; exact absurd hd.symm ha

end Glob
