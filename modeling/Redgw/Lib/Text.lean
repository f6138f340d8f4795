import Mathlib.Data.List.DropRight
import Mathlib.Data.List.Infix

/-! # Cutting and searching texts

Python's `split` with a limit, the part behind the last separator, and the search for a part. -/

namespace Text

variable {α : Type} [DecidableEq α]

/-- The first separator cuts the text in two; `none` when there is no separator. -/
def cut (sep : α) : List α → Option (List α × List α)
  | [] => none
  | c :: s => if c = sep then some ([], s) else (cut sep s).map fun x => (c :: x.1, x.2)

/-- `s.split(sep, n)`: the parts between the first `n` separators and the rest. -/
def split (sep : α) : Nat → List α → List (List α)
  | 0, s => [s]
  | n + 1, s => match cut sep s with
    | none => [s]
    | some (a, b) => a :: split sep n b

/-- `s.rsplit(sep, 1)[-1]`: what follows the last separator, or all of it. -/
def lastPart (sep : α) (s : List α) : List α := s.rtakeWhile (· ≠ sep)

/-- `w in s`: the text `w` occurs in `s`. -/
def occurs (w s : List α) : Bool := s.tails.any (w.isPrefixOf ·)

theorem occurs_iff {w s : List α} : occurs w s = true ↔ ∃ a b, s = a ++ w ++ b := by
  simp only [occurs, List.any_eq_true, List.mem_tails, List.isPrefixOf_iff_prefix]
  constructor
  · rintro ⟨_, ⟨a, rfl⟩, b, rfl⟩
    exact ⟨a, b, by simp⟩
  · rintro ⟨a, b, rfl⟩
    exact ⟨w ++ b, ⟨a, by simp⟩, b, rfl⟩

/-- A text does not occur across a character that it does not have. -/
theorem occurs_append_cons {w a b : List α} {c : α} (hc : c ∉ w) (hw : w ≠ []) :
    occurs w (a ++ c :: b) = true ↔ occurs w a = true ∨ occurs w b = true := by
  simp only [occurs_iff]
  constructor
  · rintro ⟨x, y, h⟩
    rw [List.append_assoc] at h
    rcases List.append_eq_append_iff.mp h with ⟨z, rfl, hz⟩ | ⟨z, rfl, hz⟩
    · -- the text starts behind `a`
      cases z with
      | nil =>
        rw [List.nil_append] at hz
        cases w with
        | nil => exact absurd rfl hw
        | cons d w =>
          rw [List.cons_append] at hz
          exact absurd (List.mem_cons.mpr (.inl (List.cons.inj hz).1)) hc
      | cons d z =>
        rw [List.cons_append] at hz
        exact .inr ⟨z, y, by rw [(List.cons.inj hz).2, List.append_assoc]⟩
    · -- the text starts in `a`, and ends there
      rcases List.append_eq_append_iff.mp hz with ⟨u, rfl, -⟩ | ⟨u, rfl, hu⟩
      · exact .inl ⟨x, u, by simp⟩
      · cases u with
        | nil => exact .inl ⟨x, [], by simp⟩
        | cons d u =>
          rw [List.cons_append] at hu
          exact absurd (List.mem_append_right z (List.mem_cons.mpr (.inl (List.cons.inj hu).1))) hc
  · rintro (⟨x, y, rfl⟩ | ⟨x, y, rfl⟩)
    · exact ⟨x, y ++ c :: b, by simp⟩
    · exact ⟨a ++ c :: x, y, by simp⟩

theorem cut_eq_some {sep : α} {s a b : List α} : cut sep s = some (a, b) ↔ s = a ++ sep :: b ∧ sep ∉ a := by
  induction s generalizing a with
  | nil => simp [cut]
  | cons c s ih =>
    by_cases hc : c = sep
    · subst hc
      simp only [cut, ↓reduceIte, Option.some.injEq, Prod.mk.injEq]
      constructor
      · rintro ⟨rfl, rfl⟩
        exact ⟨rfl, by simp⟩
      · rintro ⟨h, hn⟩
        cases a with
        | nil => simpa using h
        | cons d a => simp_all
    · simp only [cut, hc, ↓reduceIte, Option.map_eq_some_iff, Prod.exists, Prod.mk.injEq]
      constructor
      · rintro ⟨x, y, hxy, rfl, rfl⟩
        obtain ⟨rfl, hx⟩ := ih.mp hxy
        exact ⟨rfl, by simpa using ⟨Ne.symm hc, hx⟩⟩
      · rintro ⟨h, hn⟩
        cases a with
        | nil => simp_all
        | cons d a =>
          simp only [List.cons_append, List.cons.injEq] at h
          exact ⟨a, b, ih.mpr ⟨h.2, fun ha => hn (List.mem_cons_of_mem _ ha)⟩, by rw [h.1], rfl⟩

/-- Two cuts at the first separator are the same cut. -/
theorem cut_inj {sep : α} {a b x y : List α} (ha : sep ∉ a) (hx : sep ∉ x)
    (h : a ++ sep :: b = x ++ sep :: y) : a = x ∧ b = y := by
  have h₁ : cut sep (a ++ sep :: b) = some (a, b) := cut_eq_some.mpr ⟨rfl, ha⟩
  rw [h, cut_eq_some.mpr ⟨rfl, hx⟩] at h₁
  simpa [eq_comm] using h₁

/-- A limit of two cuts twice. -/
theorem split_two {sep : α} {s a b c : List α} :
    split sep 2 s = [a, b, c] ↔ s = a ++ sep :: (b ++ sep :: c) ∧ sep ∉ a ∧ sep ∉ b := by
  constructor
  · intro h
    rw [split] at h
    split at h
    · simp at h
    · rename_i x y h₁
      rw [split] at h
      split at h
      · simp at h
      · rename_i z w h₂
        simp only [split, List.cons.injEq, and_true] at h
        obtain ⟨rfl, rfl, rfl⟩ := h
        obtain ⟨rfl, hx⟩ := cut_eq_some.mp h₁
        obtain ⟨rfl, hz⟩ := cut_eq_some.mp h₂
        exact ⟨rfl, hx, hz⟩
  · rintro ⟨rfl, ha, hb⟩
    have h₁ : cut sep (a ++ sep :: (b ++ sep :: c)) = some (a, b ++ sep :: c) := cut_eq_some.mpr ⟨rfl, ha⟩
    have h₂ : cut sep (b ++ sep :: c) = some (b, c) := cut_eq_some.mpr ⟨rfl, hb⟩
    simp only [split, h₁, h₂]

/-! ### Segments -/

/-- Texts without the separator, each behind one, are found again by splitting. -/
theorem splitOn_flatMap (sep : α) {ts : List (List α)} (h : ∀ t ∈ ts, sep ∉ t) :
    (ts.flatMap fun t => sep :: t).splitOn sep = [] :: ts := by
  induction ts with
  | nil => rfl
  | cons t ts ih =>
    have ht : (t ++ ts.flatMap fun t => sep :: t).splitOn sep = t :: ts := by
      have hts := ih fun u hu => h u (List.mem_cons_of_mem _ hu)
      cases ts with
      | nil => simpa using List.splitOn_eq_singleton (h t List.mem_cons_self)
      | cons u ts =>
        rw [List.flatMap_cons, List.cons_append, List.splitOn_append_cons_self,
          List.splitOn_eq_singleton (h t List.mem_cons_self)]
        rw [List.flatMap_cons, List.cons_append, List.splitOn_cons_eq_if_modifyHead] at hts
        simpa using hts
    rw [List.flatMap_cons, List.cons_append, List.splitOn_cons_eq_if_modifyHead, ht]
    simp

omit [DecidableEq α] in
theorem intercalate_append {sep : List α} {a b : List (List α)} (ha : a ≠ []) (hb : b ≠ []) :
    sep.intercalate (a ++ b) = sep.intercalate a ++ (sep ++ sep.intercalate b) := by
  induction a with
  | nil => exact absurd rfl ha
  | cons x a ih =>
    cases a with
    | nil => simp [List.intercalate_cons_of_ne_nil hb]
    | cons y a =>
      have h := ih (by simp)
      rw [List.cons_append] at h
      rw [List.cons_append, List.cons_append, List.intercalate_cons_cons, h, List.intercalate_cons_cons]
      simp

omit [DecidableEq α] in
/-- A separator between the parts and one at the end: each part is ended by one. -/
theorem intercalate_append_sep {sep : List α} {parts : List (List α)} (h : parts ≠ []) :
    sep.intercalate parts ++ sep = parts.flatMap fun part => part ++ sep := by
  induction parts with
  | nil => exact absurd rfl h
  | cons x parts ih =>
    cases parts with
    | nil => simp
    | cons y parts =>
      have hparts := ih (List.cons_ne_nil _ _)
      rw [List.flatMap_cons, ← hparts, List.intercalate_cons_cons]
      simp only [List.append_assoc]

omit [DecidableEq α] in
/-- What is behind any separator is at the end of what is behind the first one. -/
theorem suffix_of_first {sep : α} {x y a b : List α} (hx : sep ∉ x) (h : x ++ sep :: y = a ++ sep :: b) : b <:+ y := by
  rcases List.append_eq_append_iff.mp h with ⟨w, -, hw⟩ | ⟨w, rfl, hw⟩
  · cases w with
    | nil =>
      cases hw
      exact List.suffix_refl _
    | cons c w =>
      rw [List.cons_append] at hw
      obtain ⟨-, rfl⟩ := List.cons.inj hw
      exact ⟨w ++ [sep], by simp⟩
  · cases w with
    | nil =>
      cases hw
      exact List.suffix_refl _
    | cons c w =>
      rw [List.cons_append] at hw
      obtain ⟨rfl, -⟩ := List.cons.inj hw
      exact absurd (List.mem_append_right a List.mem_cons_self) hx

/-- A text occurs between two separators exactly when it is a segment with others on both sides. -/
theorem occurs_between {sep : α} {w s : List α} (hw : sep ∉ w) :
    occurs (sep :: (w ++ [sep])) s = true ↔ ∃ a b, a ≠ [] ∧ b ≠ [] ∧ s.splitOn sep = a ++ w :: b := by
  rw [occurs_iff]
  constructor
  · rintro ⟨x, y, rfl⟩
    refine ⟨x.splitOn sep, y.splitOn sep, List.splitOn_ne_nil _ _, List.splitOn_ne_nil _ _, ?_⟩
    have hs : x ++ sep :: (w ++ [sep]) ++ y = x ++ sep :: (w ++ sep :: y) := by simp
    rw [hs, List.splitOn_append_cons_self, List.splitOn_append_cons_self, List.splitOn_eq_singleton hw]
    rfl
  · rintro ⟨a, b, ha, hb, h⟩
    refine ⟨[sep].intercalate a, [sep].intercalate b, ?_⟩
    calc s = [sep].intercalate (s.splitOn sep) := (List.intercalate_splitOn sep).symm
      _ = [sep].intercalate a ++ ([sep] ++ [sep].intercalate (w :: b)) := by
        rw [h, intercalate_append ha (List.cons_ne_nil w b)]
      _ = [sep].intercalate a ++ sep :: (w ++ [sep]) ++ [sep].intercalate b := by
        rw [List.intercalate_cons_of_ne_nil hb]
        simp

/-- The parts of a text have no separator. -/
theorem not_mem_splitOn {sep : α} {s t : List α} (h : t ∈ s.splitOn sep) : sep ∉ t := by
  induction s generalizing t with
  | nil =>
    rw [List.splitOn_nil, List.mem_singleton] at h
    simp [h]
  | cons c s ih =>
    rw [List.splitOn_cons_eq_if_modifyHead] at h
    split at h
    · rcases List.mem_cons.mp h with rfl | h
      · simp
      · exact ih h
    · rename_i hc
      cases hs : s.splitOn sep with
      | nil => exact absurd hs (List.splitOn_ne_nil sep s)
      | cons w ws =>
        rw [hs, List.modifyHead_cons] at h
        rcases List.mem_cons.mp h with rfl | h
        · rw [List.mem_cons, not_or]
          exact ⟨fun he => hc (by simp [he]), ih (hs ▸ List.mem_cons_self)⟩
        · exact ih (hs ▸ List.mem_cons_of_mem _ h)

theorem not_mem_lastPart {sep : α} {s : List α} : sep ∉ lastPart sep s := by
  intro h
  simpa using List.mem_rtakeWhile_imp h

theorem lastPart_append {sep : α} (a : List α) {b : List α} (h : sep ∉ b) :
    lastPart sep (a ++ sep :: b) = b := by
  have hb : ∀ c ∈ b.reverse, decide (c ≠ sep) = true := by
    intro c hc
    refine decide_eq_true ?_
    rintro rfl
    exact h (List.mem_reverse.mp hc)
  rw [lastPart, List.rtakeWhile, List.reverse_append, List.reverse_cons, List.append_assoc,
    List.takeWhile_append_of_pos hb]
  simp

/-! ### Decimal numbers -/

theorem toString_nat (n : Nat) : (toString n).toList = Nat.toDigits 10 n := by simp [toString]

theorem toString_ofNat (n : Nat) : (toString (Int.ofNat n)).toList = Nat.toDigits 10 n := by simp [toString, Int.repr]

theorem toString_negSucc (n : Nat) : (toString (Int.negSucc n)).toList = '-' :: Nat.toDigits 10 (n + 1) := by
  simp [toString, Int.repr]

theorem isDigit_of_mem {n : Nat} {c : Char} (h : c ∈ Nat.toDigits 10 n) : c.isDigit = true :=
  Nat.isDigit_of_mem_toDigits (by decide) (by decide) h

theorem not_mem_toDigits {n : Nat} {c : Char} (h : c.isDigit = false) : c ∉ Nat.toDigits 10 n := by
  intro hc
  rw [isDigit_of_mem hc] at h
  cases h

theorem toDigits_inj {m n : Nat} (h : Nat.toDigits 10 m = Nat.toDigits 10 n) : m = n := by
  rw [← Nat.ofDigitChars_ten_toDigits (n := m), h, Nat.ofDigitChars_ten_toDigits]

end Text
