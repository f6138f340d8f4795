import Redgw.Lib.Text

/-! # The exposition format

Pages of samples, one a line: a name, at most one label with its value, and a number. Other lines are
comments. -/

namespace Exposition

/-! ### Numbers -/

def Digits (s : List Char) : Prop := s ≠ [] ∧ ∀ c ∈ s, c.isDigit = true

/-- Digits, with a fraction or without. -/
inductive Magnitude : List Char → Prop
  | whole {w : List Char} (h : Digits w) : Magnitude w
  | decimal {w f : List Char} (hw : Digits w) (hf : Digits f) : Magnitude (w ++ '.' :: f)

/-- A decimal number, with a sign or an exponent or without. -/
inductive Number : List Char → Prop
  | magnitude {s : List Char} (h : Magnitude s) : Number s
  | exponent {s e : List Char} (h : Magnitude s) (sign : Char) (hs : sign = '+' ∨ sign = '-') (he : Digits e) :
    Number (s ++ 'e' :: sign :: e)
  | negative {s : List Char} (h : Number s) : Number ('-' :: s)

theorem Digits.append {a b : List Char} (ha : ∀ c ∈ a, c.isDigit = true) (hb : Digits b) : Digits (a ++ b) := by
  refine ⟨List.append_ne_nil_of_right_ne_nil a hb.1, fun c hc => ?_⟩
  rcases List.mem_append.mp hc with h | h
  · exact ha c h
  · exact hb.2 c h

theorem digits_toDigits (n : Nat) : Digits (Nat.toDigits 10 n) :=
  ⟨Nat.toDigits_ne_nil, fun _ => Text.isDigit_of_mem⟩

theorem number_int (n : Int) : Number (toString n).toList := by
  cases n with
  | ofNat n =>
    rw [Text.toString_ofNat]
    exact .magnitude (.whole (digits_toDigits n))
  | negSucc n =>
    rw [Text.toString_negSucc]
    exact .negative (.magnitude (.whole (digits_toDigits _)))

theorem Digits.newline {s : List Char} (h : Digits s) : '\n' ∉ s := fun hm => absurd (h.2 _ hm) (by decide)

theorem Number.newline {s : List Char} (h : Number s) : '\n' ∉ s := by
  have hmag : ∀ {s : List Char}, Magnitude s → '\n' ∉ s := by
    intro s h
    cases h with
    | whole h => exact h.newline
    | decimal hw hf => simp [hw.newline, hf.newline]
  induction h with
  | magnitude h => exact hmag h
  | exponent h sign hs he => rcases hs with rfl | rfl <;> simp [hmag h, he.newline]
  | negative h ih => simp [ih]

/-! ### Doubles -/

/-- A finite double by its shortest decimal digits and the place of the point before, in or behind them. -/
structure Double where
  negative : Bool
  digits : List (Fin 10)
  point : Int
  nonempty : digits ≠ []

namespace Double

def chars (d : Double) : List Char := d.digits.map fun n : Fin 10 => Nat.digitChar n.val

/-- Two digits at least. -/
def exponentText (e : Int) : List Char :=
  let ds := Nat.toDigits 10 e.natAbs
  (if e < 0 then '-' else '+') :: (if ds.length < 2 then '0' :: ds else ds)

/-- The digits around the point; with none behind it a zero is put there. -/
def positional (d : Double) : List Char :=
  if d.point ≤ 0 then '0' :: '.' :: (List.replicate (-d.point).toNat '0' ++ d.chars)
  else if d.point < d.digits.length then d.chars.take d.point.toNat ++ '.' :: d.chars.drop d.point.toNat
  else d.chars ++ List.replicate (d.point - d.digits.length).toNat '0' ++ ['.', '0']

def scientific (d : Double) : List Char :=
  (match d.chars with
    | [] => []
    | [c] => [c]
    | c :: cs => c :: '.' :: cs) ++ 'e' :: exponentText (d.point - 1)

/-- `repr(d)` -/
def text (d : Double) : List Char :=
  (if d.negative then ['-'] else []) ++
    if d.point ≤ -4 ∨ 16 < d.point then d.scientific else d.positional

theorem digits_chars (d : Double) : Digits d.chars := by
  refine ⟨by simpa [chars] using d.nonempty, fun c hc => ?_⟩
  obtain ⟨n, -, rfl⟩ := List.mem_map.mp hc
  rw [Nat.isDigit_digitChar]
  exact decide_eq_true n.isLt

theorem digits_zeros {n : Nat} : ∀ c ∈ List.replicate n '0', c.isDigit = true := by
  intro c hc
  obtain ⟨-, rfl⟩ := List.mem_replicate.mp hc
  rfl

theorem magnitude_positional (d : Double) : Magnitude d.positional := by
  have hd := d.digits_chars
  have hlen : d.chars.length = d.digits.length := List.length_map _
  unfold positional
  split
  · exact .decimal (w := ['0']) ⟨by simp, digits_zeros (n := 1)⟩ (hd.append digits_zeros)
  · rename_i hpos
    split
    · rename_i hlt
      refine .decimal ⟨?_, fun c hc => hd.2 c (List.mem_of_mem_take hc)⟩ ⟨?_, fun c hc => hd.2 c (List.mem_of_mem_drop hc)⟩
      · rw [Ne, ← List.length_eq_zero_iff, List.length_take]
        omega
      · rw [Ne, ← List.length_eq_zero_iff, List.length_drop]
        omega
    · refine .decimal ⟨?_, fun c hc => ?_⟩ ⟨by simp, digits_zeros (n := 1)⟩
      · exact List.append_ne_nil_of_left_ne_nil hd.1 _
      · rcases List.mem_append.mp hc with h | h
        · exact hd.2 c h
        · exact digits_zeros c h

theorem exponentText_eq (e : Int) : ∃ sign ds, exponentText e = sign :: ds ∧ (sign = '+' ∨ sign = '-') ∧ Digits ds := by
  have hds := digits_toDigits e.natAbs
  refine ⟨_, _, rfl, ?_, ?_⟩
  · split
    · exact Or.inr rfl
    · exact Or.inl rfl
  · split
    · exact hds.append (digits_zeros (n := 1))
    · exact hds

theorem number_scientific (d : Double) : Number d.scientific := by
  obtain ⟨sign, ds, he, hs, hds⟩ := exponentText_eq (d.point - 1)
  obtain ⟨hne, hdig⟩ := d.digits_chars
  unfold scientific
  rw [he]
  refine .exponent ?_ sign hs hds
  cases hc : d.chars with
  | nil => exact absurd hc hne
  | cons c cs =>
    rw [hc] at hdig
    cases cs with
    | nil => exact .whole ⟨by simp, hdig⟩
    | cons c' cs =>
      refine .decimal (w := [c]) ⟨by simp, ?_⟩ ⟨by simp, fun x hx => hdig x (List.mem_cons_of_mem _ hx)⟩
      intro x hx
      rw [List.mem_singleton.mp hx]
      exact hdig c List.mem_cons_self

theorem number_text (d : Double) : Number d.text := by
  have h : Number (if d.point ≤ -4 ∨ 16 < d.point then d.scientific else d.positional) := by
    split
    · exact d.number_scientific
    · exact .magnitude d.magnitude_positional
  unfold text
  cases d.negative with
  | false => exact h
  | true => exact .negative h

end Double

/-! ### Lines -/

/-- Letters, digits, `_` and `:`, not beginning with a digit. -/
def isName (s : List Char) : Bool :=
  match s with
  | [] => false
  | c :: cs => !c.isDigit && (c :: cs).all fun c => c.isAlphanum || c == '_' || c == ':'

/-- The characters that have to be escaped in a label value. -/
def unescaped (c : Char) : Bool := c != '\n' && c != '"' && c != '\\'

/-- A well-formed line, whose label and value are as `ok` wants them. -/
inductive Line (ok : List Char → List Char → Prop) : List Char → Prop
  | comment {s : List Char} (h : '\n' ∉ s) : Line ok ('#' :: s)
  | plain {name number : List Char} (hname : isName name = true) (hnumber : Number number) :
    Line ok (name ++ ' ' :: number)
  | labelled {name label value number : List Char} (hname : isName name = true) (hlabel : isName label = true)
    (hvalue : value.all unescaped = true) (hok : ok label value) (hnumber : Number number) :
    Line ok (name ++ '{' :: (label ++ '=' :: '"' :: (value ++ '"' :: '}' :: ' ' :: number)))

/-- The lines of a text in which each is ended by a newline. -/
def textLines (text : List Char) : List (List Char) := (text.splitOn '\n').dropLast

def WellFormed (ok : List Char → List Char → Prop) (text : List Char) : Prop :=
  ∀ line ∈ textLines text, Line ok line

variable {ok : List Char → List Char → Prop}

theorem isName_newline {s : List Char} (h : isName s = true) : '\n' ∉ s := by
  intro hm
  cases s with
  | nil => cases hm
  | cons c s =>
    have hall := (Bool.and_eq_true_iff.mp h).2
    exact absurd (List.all_eq_true.mp hall _ hm) (by decide)

theorem Line.newline {line : List Char} (h : Line ok line) : '\n' ∉ line := by
  cases h with
  | comment h => simpa using h
  | plain hname hnumber => simp [isName_newline hname, hnumber.newline]
  | @labelled _ _ value _ hname hlabel hvalue _ hnumber =>
    have hv : '\n' ∉ value := fun hm => absurd (List.all_eq_true.mp hvalue _ hm) (by decide)
    simp [isName_newline hname, isName_newline hlabel, hv, hnumber.newline]

theorem splitOn_flatMap_newline {ls : List (List Char)} (h : ∀ l ∈ ls, '\n' ∉ l) :
    (ls.flatMap fun l => l ++ ['\n']).splitOn '\n' = ls ++ [[]] := by
  induction ls with
  | nil => rfl
  | cons l ls ih =>
    have hl : l.splitOn '\n' = [l] := List.splitOn_eq_singleton (h l List.mem_cons_self)
    rw [List.flatMap_cons, List.append_assoc, List.singleton_append, List.splitOn_append_cons_self, hl,
      ih fun l hl => h l (List.mem_cons_of_mem _ hl)]
    rfl

/-- A text of well-formed lines, each ended by a newline, is well formed. -/
theorem wellFormed_of_lines {ls : List (List Char)} (h : ∀ l ∈ ls, Line ok l) :
    WellFormed ok (ls.flatMap fun l => l ++ ['\n']) := by
  intro line hline
  unfold textLines at hline
  rw [splitOn_flatMap_newline fun l hl => (h l hl).newline, List.dropLast_concat] at hline
  exact h line hline

/-- A line that is no comment has a space. -/
theorem Line.space {c : Char} {line : List Char} (h : Line ok (c :: line)) (hc : c ≠ '#') : ' ' ∈ c :: line := by
  generalize hl : c :: line = l at h ⊢
  cases h with
  | comment _ => exact absurd (List.cons.inj hl).1 hc
  | plain _ _ => simp
  | labelled _ _ _ _ _ => simp

/-- A text with a line that is no comment and has no space is not well formed. -/
theorem not_wellFormed {c : Char} {w : List Char} (hc : c ≠ '#') (hn : '\n' ∉ c :: w) (hs : ' ' ∉ c :: w)
    {a b : List Char} : ¬WellFormed ok (a ++ '\n' :: (c :: w) ++ '\n' :: b) := by
  intro h
  refine hs ((h (c :: w) ?_).space hc)
  unfold textLines
  have hsplit : (a ++ '\n' :: (c :: w) ++ '\n' :: b).splitOn '\n' = a.splitOn '\n' ++ (c :: w) :: b.splitOn '\n' := by
    rw [List.append_assoc, List.cons_append, List.splitOn_append_cons_self, List.splitOn_append_cons_self,
      List.splitOn_eq_singleton hn]
    rfl
  rw [hsplit, List.dropLast_append_of_ne_nil (List.cons_ne_nil _ _),
    List.dropLast_cons_of_ne_nil (List.splitOn_ne_nil _ _)]
  simp

end Exposition
