import Redgw.Redis.Lifetimes

/-! # Lists

What the commands on lists do to the elements. -/

namespace Redgw.Redis

/-- The elements under a key, whether it has expired or not. -/
def elements (e : Option Entry) : List String :=
  match e with
  | some ⟨.list xs, _⟩ => xs
  | _ => []

/-- The elements that a command finds. -/
def found (now : Nat) (e : Option Entry) : List String := elements (live now e)

/-- A list; an empty one leaves no key behind. -/
def listEntry (xs : List String) (deadline : Option Nat) : Option Entry :=
  if xs = [] then none else some ⟨.list xs, deadline⟩

/-- There is no key, or it holds a list with elements. -/
def IsList (e : Option Entry) : Prop := e = none ∨ ∃ xs d, xs ≠ [] ∧ e = some ⟨.list xs, d⟩

/-- What the documentation of Redis promises of the commands on lists. -/
structure Server.Lists (R : Server) : Prop where
  llen : ∀ now e, IsList e → R.onKey .llen now e = (.ok (.int (found now e).length), e)
  lpush : ∀ value now e, IsList e → R.onKey (.lpush value) now e =
    (.ok (.int ((found now e).length + 1)), some ⟨.list (value :: found now e), deadlineOf now e⟩)
  rpush : ∀ value now e, IsList e → R.onKey (.rpush value) now e =
    (.ok (.int ((found now e).length + 1)), some ⟨.list (found now e ++ [value]), deadlineOf now e⟩)
  lpopNothing : ∀ now e, IsList e → found now e = [] → R.onKey .lpop now e = (.ok .null, e)
  lpop : ∀ now e value xs, IsList e → found now e = value :: xs →
    R.onKey .lpop now e = (.ok (.str value), listEntry xs (deadlineOf now e))
  rpopNothing : ∀ now e, IsList e → found now e = [] → R.onKey .rpop now e = (.ok .null, e)
  rpop : ∀ now e value xs, IsList e → found now e = xs ++ [value] →
    R.onKey .rpop now e = (.ok (.str value), listEntry xs (deadlineOf now e))
  ltrimNothing : ∀ (keep : Nat) now e, 1 ≤ keep → int64 (-keep) = true → IsList e → found now e = [] →
    R.onKey (.ltrim (-keep) (-1)) now e = (.ok (.bool true), e)
  ltrim : ∀ (keep : Nat) now e, 1 ≤ keep → int64 (-keep) = true → IsList e → found now e ≠ [] →
    R.onKey (.ltrim (-keep) (-1)) now e =
      (.ok (.bool true), listEntry ((found now e).drop ((found now e).length - keep)) (deadlineOf now e))
  ltrimRefused : ∀ (keep : Nat) now e, int64 (-keep) = false → IsList e →
    ∃ msg, R.onKey (.ltrim (-keep) (-1)) now e = (.error msg, e)

theorem IsList.found_cases {e : Option Entry} (h : IsList e) (now : Nat) :
    (live now e = none ∧ found now e = []) ∨
    ∃ xs d, xs ≠ [] ∧ live now e = some ⟨.list xs, d⟩ ∧ found now e = xs ∧ deadlineOf now e = d := by
  unfold found deadlineOf
  cases hl : live now e with
  | none => exact Or.inl ⟨rfl, rfl⟩
  | some x =>
    rcases h with rfl | ⟨xs, d, hxs, rfl⟩
    · cases hl
    · obtain rfl := Option.some.inj (live_eq_some hl)
      exact Or.inr ⟨xs, d, hxs, rfl, rfl, rfl⟩

theorem reading_list {e : Option Entry} (he : IsList e) (now : Nat) (f : List String → Reply) :
    reading Value.list? [] now e f = (f (found now e), e) := by
  unfold reading
  rcases he.found_cases now with ⟨hl, hf⟩ | ⟨xs, d, -, hl, hf, -⟩
  · rw [hl, hf]
  · rw [hl, hf]
    rfl

theorem writing_list {e : Option Entry} (he : IsList e) (now : Nat) (f : List String → Json × List String) :
    writing Value.list? [] putList now e (fun xs => .ok (f xs)) =
      (.ok (f (found now e)).1, if found now e = [] ∧ (f (found now e)).2 = [] then e
        else listEntry (f (found now e)).2 (deadlineOf now e)) := by
  unfold writing
  rcases he.found_cases now with ⟨hl, hf⟩ | ⟨xs, d, hxs, hl, hf, hd⟩
  · have hdl : deadlineOf now e = none := by rw [deadlineOf, hl]; rfl
    rw [hl, hf, hdl]
    dsimp only
    generalize f [] = r
    obtain ⟨r, xs⟩ := r
    cases xs <;> simp [putList, listEntry]
  · rw [hl, hf, hd]
    dsimp only [Value.list?]
    generalize f xs = r
    obtain ⟨r, ys⟩ := r
    rw [if_neg fun h => hxs h.1]
    cases ys <;> simp [putList, listEntry]

theorem slice_last (keep : Nat) (hkeep : 1 ≤ keep) (xs : List String) :
    slice (-keep) (-1) xs = xs.drop (xs.length - keep) := by
  unfold slice
  dsimp only
  rw [if_pos (by omega), if_pos (by omega)]
  have hstart : (max ((xs.length : Int) + -keep) 0).toNat = xs.length - keep := by omega
  have hcount : ((xs.length : Int) + -1 - max ((xs.length : Int) + -keep) 0 + 1).toNat = (xs.drop (xs.length - keep)).length := by
    rw [List.length_drop]
    omega
  rw [hstart, hcount, List.take_length]

theorem ltrim_fits {keep : Nat} (hfits : int64 (-keep) = true) (now : Nat) (e : Option Entry) :
    onKey (.ltrim (-keep) (-1)) now e =
      writing Value.list? [] putList now e fun xs => .ok (.bool true, slice (-keep) (-1) xs) := by
  have htrim : ltrim (-keep) (-1) = fun xs => .ok (.bool true, slice (-keep) (-1) xs) := by
    funext xs
    unfold ltrim
    rw [hfits]
    rfl
  exact congrArg (writing Value.list? [] putList now e) htrim

theorem ltrim_refused {keep : Nat} (hfits : int64 (-keep) = false) {e : Option Entry} (he : IsList e) (now : Nat) :
    onKey (.ltrim (-keep) (-1)) now e = (.error "ERR value is not an integer or out of range", e) := by
  have htrim : ltrim (-keep) (-1) = fun _ => .error "ERR value is not an integer or out of range" := by
    funext xs
    unfold ltrim
    rw [hfits]
    rfl
  show writing Value.list? [] putList now e (ltrim (-keep) (-1)) = _
  rw [htrim]
  unfold writing
  rcases he.found_cases now with ⟨hl, -⟩ | ⟨xs, d, -, hl, -⟩
  · rw [hl]
  · rw [hl]
    rfl

theorem reference_lists : reference.Lists where
  llen now e he := reading_list he now fun xs => .ok (.int xs.length)
  lpush value now e he := by
    have h := writing_list he now fun xs => (.int (xs.length + 1), value :: xs)
    rw [if_neg (by simp)] at h
    exact h
  rpush value now e he := by
    have h := writing_list he now fun xs => (.int (xs.length + 1), xs ++ [value])
    rw [if_neg (by simp)] at h
    simp only [listEntry, List.append_eq_nil_iff, List.cons_ne_self, and_false, if_false] at h
    exact h
  lpopNothing now e he hf := by
    have h := writing_list he now fun xs => (optional .str xs.head?, xs.tail)
    rw [hf] at h
    exact h
  lpop now e value xs he hf := by
    have h := writing_list he now fun xs => (optional .str xs.head?, xs.tail)
    rw [hf] at h
    exact h
  rpopNothing now e he hf := by
    have h := writing_list he now fun xs => (optional .str xs.getLast?, xs.dropLast)
    rw [hf] at h
    exact h
  rpop now e value xs he hf := by
    have h := writing_list he now fun xs => (optional .str xs.getLast?, xs.dropLast)
    rw [hf, if_neg (by simp), List.getLast?_append, List.dropLast_concat] at h
    exact h
  ltrimNothing keep now e hkeep hfits he hf := by
    have h := writing_list he now fun xs => (.bool true, slice (-keep) (-1) xs)
    rw [hf, slice_last keep hkeep, List.drop_nil] at h
    exact (ltrim_fits hfits now e).trans h
  ltrim keep now e hkeep hfits he hf := by
    have h := writing_list he now fun xs => (.bool true, slice (-keep) (-1) xs)
    rw [if_neg fun hn => hf hn.1, slice_last keep hkeep] at h
    exact (ltrim_fits hfits now e).trans h
  ltrimRefused keep now e hfits he := ⟨_, ltrim_refused hfits he now⟩

end Redgw.Redis
