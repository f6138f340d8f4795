import Redgw.Redis.Kinds
import Redgw.Redis.Lifetimes

/-! # Streams

Which ids there are, and what the commands on streams do to the entries. -/

namespace Redgw.Redis

/-! ### Ids -/

section Ids
variable {a b c : StreamId}

theorem StreamId.lt_iff : a.lt b = true ↔ a.ms < b.ms ∨ a.ms = b.ms ∧ a.seq < b.seq := by
  simp [StreamId.lt]

theorem StreamId.lt_trans (hab : a.lt b = true) (hbc : b.lt c = true) : a.lt c = true := by
  rw [StreamId.lt_iff] at *
  omega

theorem StreamId.not_lt_of_lt (h : a.lt b = true) : b.lt a = false := by
  rw [← Bool.not_eq_true, StreamId.lt_iff]
  rw [StreamId.lt_iff] at h
  omega

theorem StreamId.not_lt_self (a : StreamId) : a.lt a = false := by
  rw [← Bool.not_eq_true, StreamId.lt_iff]
  omega

end Ids

/-- Both numbers have 64 bits. -/
def StreamId.Fits (a : StreamId) : Prop := a.ms ≤ 18446744073709551615 ∧ a.seq ≤ 18446744073709551615

instance (a : StreamId) : Decidable a.Fits := inferInstanceAs (Decidable (_ ∧ _))

theorem parseNat_eq_some {s : List Char} {n : Nat} :
    parseNat s = some n ↔ s ≠ [] ∧ s.all Char.isDigit = true ∧ n = Nat.ofDigitChars 10 s 0 := by
  rw [Nat.ofDigitChars_eq_foldl]
  unfold parseNat
  cases s with
  | nil => simp
  | cons c s =>
    cases hall : (c :: s).all Char.isDigit with
    | true => simp [eq_comm]
    | false => simp

theorem StreamId.render_toList (a : StreamId) : a.render.toList = Nat.toDigits 10 a.ms ++ '-' :: Nat.toDigits 10 a.seq := by
  have hdash : (toString "-").toList = ['-'] := rfl
  simp [StreamId.render, String.toList_append, hdash]

/-- The text of an id is read back. -/
theorem parseId_render {a : StreamId} (h : a.Fits) : parseId a.render.toList = some a := by
  have hcut : Text.cut '-' a.render.toList = some (Nat.toDigits 10 a.ms, Nat.toDigits 10 a.seq) :=
    Text.cut_eq_some.mpr ⟨a.render_toList, Text.not_mem_toDigits (by decide)⟩
  obtain ⟨hms, hseq⟩ := h
  unfold parseId
  simp [hcut, parseNat_toDigits, Option.filter_some, hms, hseq]

/-! ### What the documentation promises -/

/-- The stream that a command finds. A missing key reads as an empty one. -/
def streamOf (now : Nat) (e : Option Entry) : Stream :=
  match live now e with
  | some ⟨.stream x, _⟩ => x
  | _ => .empty

structure Server.Streams (R : Server) : Prop where
  /-- The first entries from the bound on, in order; a bound that is no id is refused. -/
  xrange : ∀ min count now e, HasKind .stream e → R.onKey (.xrange min count) now e = (xrange min count (streamOf now e), e)
  /-- Only ids that are none are refused, and all of these if there is the group. -/
  xack : ∀ group ids now e x d, live now e = some ⟨.stream x, d⟩ → x.groups.any (·.name == group) = true →
    ((R.onKey (.xack group ids) now e).1 = .error invalidId ↔ ∃ id ∈ ids, parseId id.toList = none)
  /-- A new entry goes to the end. At the limit some of the oldest may go, as long as so many are left. -/
  xadd : ∀ fields maxlen now e, HasKind .stream e →
    (∃ msg, R.onKey (.xadd fields maxlen) now e = (.error msg, e)) ∨
    ∃ id n, (streamOf now e).lastId.lt id = true ∧
      (n = 0 ∨ maxlen ≤ ((((streamOf now e).entries ++ [(id, fields)]).drop n).length : Int)) ∧
      R.onKey (.xadd fields maxlen) now e = (.ok (.str id.render), some ⟨.stream { streamOf now e with
        entries := ((streamOf now e).entries ++ [(id, fields)]).drop n, lastId := id }, deadlineOf now e⟩)

/-! ### The reference server -/

theorem reading_stream {e : Option Entry} (he : HasKind .stream e) (now : Nat) (f : Stream → Reply) :
    reading Value.stream? .empty now e f = (f (streamOf now e), e) := by
  unfold reading streamOf
  cases hl : live now e with
  | none => rfl
  | some x =>
    have hkind := he.live now x hl
    obtain ⟨v, d⟩ := x
    cases v <;> cases hkind
    rfl

theorem writing_stream {e : Option Entry} (he : HasKind .stream e) (now : Nat) (f : Stream → Json × Stream) :
    writing Value.stream? .empty (fun x => some (.stream x)) now e (fun x => .ok (f x)) =
      (.ok (f (streamOf now e)).1, some ⟨.stream (f (streamOf now e)).2, deadlineOf now e⟩) := by
  unfold writing streamOf deadlineOf
  cases hl : live now e with
  | none => rfl
  | some x =>
    have hkind := he.live now x hl
    obtain ⟨v, d⟩ := x
    cases v <;> cases hkind
    rfl

theorem nextId_lt (now : Nat) (last : StreamId) : last.lt (nextId now last) = true := by
  rw [StreamId.lt_iff]
  unfold nextId
  split
  · rename_i h
    exact Or.inl h
  · exact Or.inr ⟨rfl, Nat.lt_succ_self _⟩

theorem mapM_parse_none {ids : List String} : ids.mapM (fun id => parseId id.toList) = none ↔ ∃ id ∈ ids, parseId id.toList = none := by
  induction ids with
  | nil => simp
  | cons id ids ih =>
    rw [List.mapM_cons]
    cases hid : parseId id.toList with
    | none => simp [hid]
    | some a =>
      cases hids : ids.mapM fun id => parseId id.toList with
      | none => simpa [hid, hids] using ih.mp hids
      | some as =>
        have hnone : ¬∃ id ∈ ids, parseId id.toList = none := fun h => by simp [ih.mpr h] at hids
        simpa [hid, hids] using hnone

theorem reference_streams : reference.Streams where
  xrange min count now e he := reading_stream he now (xrange min count)
  xack group ids now e x d hl hgroup := by
    have hack : reference.onKey (.xack group ids) now e = xack group ids now e := rfl
    rw [hack, ← mapM_parse_none]
    unfold xack
    cases hids : ids.mapM fun id => parseId id.toList with
    | none => simp
    | some as => simp [hl]
  xadd fields maxlen now e he := by
    refine Or.inr ⟨nextId now (streamOf now e).lastId,
      ((streamOf now e).entries ++ [(nextId now (streamOf now e).lastId, fields)]).length - maxlen.toNat, nextId_lt _ _, ?_,
      writing_stream he now (xadd now fields maxlen)⟩
    rw [List.length_drop]
    omega

end Redgw.Redis
