import Redgw.Lib.Glob
import Redgw.Redis.Reference

/-! # Counters and scans

What counting relies on: `INCRBY` makes and keeps decimal texts, `GET` and `MGET` read them back, and a
scan lists the keys that match a glob. -/

namespace Redgw.Redis

/-- A text that does not expire. -/
def IsText (e : Option Entry) : Prop := ∃ v, e = some ⟨.str v, none⟩

/-- A 64-bit integer in decimal that does not expire. -/
def IsCounter (e : Option Entry) : Prop := ∃ n : Int, int64 n = true ∧ e = some ⟨.str (toString n), none⟩

/-- A string value as `GET` finds it. -/
def textAt (now : Nat) (e : Option Entry) : Json :=
  match live now e with
  | some ⟨.str v, _⟩ => .str v
  | _ => .null

/-- What the documentation of Redis promises of counters. -/
structure Server.Counts (R : Server) : Prop where
  incrby : ∀ delta now e, int64 delta = true → e = none ∨ IsCounter e → IsCounter (R.onKey (.incrby delta) now e).2
  incrbyfloat : ∀ delta now e, e = none ∨ IsText e →
    (R.onKey (.incrbyfloat delta) now e).2 = none ∨ IsText (R.onKey (.incrbyfloat delta) now e).2
  get : ∀ now e, e = none ∨ IsText e → (R.onKey .get now e).1 = .ok (textAt now e)
  mget : ∀ now es, es ≠ [] → R.gather .mget now es = .ok (.arr (es.map (textAt now)))

/-- What the documentation of Redis promises of sums: a missing counter counts as zero, and a sum beyond
    64 bits is an error that changes nothing. -/
structure Server.Increases (R : Server) : Prop where
  absent : ∀ delta now, int64 delta = true →
    (R.onKey (.incrby delta) now none).2 = some ⟨.str (toString delta), none⟩
  present : ∀ delta now n, int64 n = true → (R.onKey (.incrby delta) now (some ⟨.str (toString n), none⟩)).2 =
    some ⟨.str (toString (if int64 (n + delta) then n + delta else n)), none⟩

/-- What the documentation of Redis promises of sums and of what is answered to them. -/
structure Server.Sums (R : Server) : Prop where
  absent : ∀ delta now, int64 delta = true →
    R.onKey (.incrby delta) now none = (.ok (.int delta), some ⟨.str (toString delta), none⟩)
  fits : ∀ delta now n, int64 n = true → int64 (n + delta) = true →
    R.onKey (.incrby delta) now (some ⟨.str (toString n), none⟩) = (.ok (.int (n + delta)), some ⟨.str (toString (n + delta)), none⟩)
  overflows : ∀ delta now n, int64 n = true → int64 (n + delta) = false →
    ∃ msg, R.onKey (.incrby delta) now (some ⟨.str (toString n), none⟩) = (.error msg, some ⟨.str (toString n), none⟩)

/-! ### Numbers as text -/

theorem parseNat_toDigits (n : Nat) : parseNat (Nat.toDigits 10 n) = some n := by
  have hall : (Nat.toDigits 10 n).all Char.isDigit = true :=
    List.all_eq_true.mpr fun _ => Text.isDigit_of_mem
  have hne : (Nat.toDigits 10 n).isEmpty = false := by
    rw [List.isEmpty_eq_false_iff]
    exact Nat.toDigits_ne_nil
  have hval := Nat.ofDigitChars_ten_toDigits (n := n)
  rw [Nat.ofDigitChars_eq_foldl] at hval
  unfold parseNat
  rw [hall, hne]
  simpa using hval

/-- A 64-bit integer is read back from its text. -/
theorem parseInt_toString {n : Int} (h : int64 n = true) : parseInt (toString n) = some n := by
  have hkeep : ∀ o : Option Int, o = some n → (o.filter fun m => toString m == toString n && int64 m) = some n := by
    rintro _ rfl
    simp [h]
  unfold parseInt
  refine hkeep _ ?_
  cases n with
  | ofNat n =>
    rw [Text.toString_ofNat]
    split
    · rename_i ds hds
      have hm : '-' ∈ Nat.toDigits 10 n := hds ▸ List.mem_cons_self
      exact absurd hm (Text.not_mem_toDigits (by decide))
    · rw [parseNat_toDigits]
      rfl
  | negSucc n =>
    rw [Text.toString_negSucc]
    show ((parseNat (Nat.toDigits 10 (n + 1))).map fun n => -(n : Int)) = _
    rw [parseNat_toDigits]
    rfl

/-! ### The reference server counts -/

/-- A key that is missing or holds a text, and what a command that rewrites texts leaves of it. -/
theorem writing_text (now : Nat) (v : Option String) (f : String → Except String (Json × String)) :
    (writing Value.str? "0" (fun s => some (.str s)) now (v.map fun v => ⟨.str v, none⟩) f).2 =
      match f (v.getD "0") with
      | .ok (_, w) => some ⟨.str w, none⟩
      | .error _ => v.map fun v => ⟨.str v, none⟩ := by
  cases v with
  | none =>
    simp only [writing, live, Option.map_none, Option.filter_none, Option.getD_none]
    cases f "0" <;> rfl
  | some v =>
    have hlive : live now (some ⟨.str v, none⟩) = some ⟨.str v, none⟩ := rfl
    simp only [writing, Option.map_some, hlive, Value.str?, Option.getD_some]
    cases f v <;> rfl

theorem incrby_toString {n : Int} (hn : int64 n = true) (delta : Int) :
    incrby delta (toString n) =
      if int64 (n + delta) then .ok (.int (n + delta), toString (n + delta))
      else .error "ERR increment or decrement would overflow" := by
  unfold incrby
  rw [parseInt_toString hn]

theorem reference_increases : reference.Increases where
  absent delta now hd := by
    have hwrite := writing_text now none (incrby delta)
    have hzero := incrby_toString (n := 0) (by decide) delta
    rw [Int.zero_add, if_pos hd] at hzero
    rw [Option.map_none, Option.getD_none, show "0" = toString (0 : Int) from rfl, hzero] at hwrite
    exact hwrite
  present delta now n hn := by
    have hwrite := writing_text now (some (toString n)) (incrby delta)
    rw [Option.map_some, Option.getD_some, incrby_toString hn delta] at hwrite
    by_cases hsum : int64 (n + delta) = true
    · rw [if_pos hsum] at hwrite ⊢
      exact hwrite
    · rw [if_neg hsum] at hwrite ⊢
      exact hwrite

theorem reference_incrby (delta : Int) (now : Nat) (e : Option Entry) :
    reference.onKey (.incrby delta) now e = writing Value.str? "0" (fun s => some (.str s)) now e (incrby delta) := rfl

theorem reference_sums : reference.Sums where
  absent delta now hd := by
    have hsum := incrby_toString (n := 0) (by decide) delta
    rw [Int.zero_add, if_pos hd, show toString (0 : Int) = "0" from rfl] at hsum
    have hlive : live now none = none := rfl
    rw [reference_incrby]
    simp [writing, hlive, hsum]
  fits delta now n hn hfits := by
    have hsum := incrby_toString hn delta
    rw [if_pos hfits] at hsum
    rw [reference_incrby]
    generalize toString n = v at hsum ⊢
    generalize toString (n + delta) = w at hsum ⊢
    have hlive : live now (some ⟨.str v, none⟩) = some ⟨.str v, none⟩ := rfl
    simp [writing, hlive, Value.str?, hsum]
  overflows delta now n hn hover := by
    have hsum := incrby_toString hn delta
    rw [if_neg (by simp [hover])] at hsum
    rw [reference_incrby]
    generalize toString n = v at hsum ⊢
    have hlive : live now (some ⟨.str v, none⟩) = some ⟨.str v, none⟩ := rfl
    simp [writing, hlive, Value.str?, hsum]

theorem Server.Increases.counts {R : Server} (hR : R.Increases) (delta : Int) (now : Nat) (e : Option Entry)
    (hd : int64 delta = true) (he : e = none ∨ IsCounter e) : IsCounter (R.onKey (.incrby delta) now e).2 := by
  rcases he with rfl | ⟨n, hn, rfl⟩
  · exact ⟨delta, hd, hR.absent delta now hd⟩
  · refine ⟨_, ?_, hR.present delta now n hn⟩
    split
    · assumption
    · exact hn

theorem incrbyfloat_texts (delta : Score) (now : Nat) (e : Option Entry) (he : e = none ∨ IsText e) :
    (onKey (.incrbyfloat delta) now e).2 = none ∨ IsText (onKey (.incrbyfloat delta) now e).2 := by
  obtain ⟨v, rfl⟩ : ∃ v : Option String, e = v.map fun v => ⟨.str v, none⟩ := by
    rcases he with rfl | ⟨v, rfl⟩
    · exact ⟨none, rfl⟩
    · exact ⟨some v, rfl⟩
  rw [onKey, writing_text now v (incrbyfloat delta)]
  cases incrbyfloat delta (v.getD "0") with
  | ok x => exact Or.inr ⟨x.2, rfl⟩
  | error msg =>
    cases v with
    | none => exact Or.inl rfl
    | some v => exact Or.inr ⟨v, rfl⟩

theorem optional_textAt (now : Nat) (e : Option Entry) :
    optional .str ((live now e).bind (·.value.str?)) = textAt now e := by
  unfold textAt
  cases live now e with
  | none => rfl
  | some x =>
    obtain ⟨v, d⟩ := x
    cases v <;> rfl

theorem reference_counts : reference.Counts where
  incrby := reference_increases.counts
  incrbyfloat := incrbyfloat_texts
  get now e he := by
    rcases he with rfl | ⟨v, rfl⟩ <;> rfl
  mget now es _ := by
    have hmap := List.map_congr_left fun e (_ : e ∈ es) => optional_textAt now e
    rw [← hmap]
    rfl

/-! ### Scans -/

/-- The answers of `SCAN` at time `now` from the first cursor to the last, each with the cursor of the
    next one: together they have the keys that match, in some order and perhaps more than once. -/
structure Scan (s : Store) (now : Nat) where
  pages : String → List (Nat × List String)
  mem_pages : ∀ pattern k, (∃ page ∈ pages pattern, k ∈ page.2) ↔
    (live now (s k)).isSome = true ∧ Glob.matches? pattern.toList k.toList = true

namespace Scan
variable {s : Store} {now : Nat}

/-- `scan_iter` -/
def keys (scan : Scan s now) (pattern : String) : List String := (scan.pages pattern).flatMap (·.2)

theorem mem_keys (scan : Scan s now) (pattern k : String) : k ∈ scan.keys pattern ↔
    (live now (s k)).isSome = true ∧ Glob.matches? pattern.toList k.toList = true :=
  List.mem_flatMap.trans (scan.mem_pages pattern k)

/-- A scan over a list that has all the keys of the store, in one page. -/
def ofKeys (ks : List String) (h : ∀ k, (live now (s k)).isSome = true → k ∈ ks) : Scan s now where
  pages pattern := [(0, ks.filter fun k => (live now (s k)).isSome && Glob.matches? pattern.toList k.toList)]
  mem_pages pattern k := by
    simp only [List.mem_singleton, exists_eq_left, List.mem_filter, Bool.and_eq_true]
    exact ⟨fun hk => hk.2, fun hk => ⟨h k hk.1, hk⟩⟩

end Scan

end Redgw.Redis
