import Redgw.Redis.Reference

/-! # Lifetimes

When a key expires, and what the commands that are for lifetimes do. -/

namespace Redgw.Redis

/-- The deadline that a command finds. -/
def deadlineOf (now : Nat) (e : Option Entry) : Option Nat := (live now e).bind (·.deadline)

/-- `ttl` seconds after `now`, in milliseconds. -/
def ahead (now : Nat) (ttl : Int) : Nat := (now + ttl * 1000).toNat

/-- The deadline of a key whose lifetime was set to `ttl` at `now`. -/
def deadlineFor (now : Nat) (ttl : Int) : Option Nat := if 0 < ttl then some (ahead now ttl) else none

/-- What EXPIRE does with a lifetime that fits. -/
def expired (now : Nat) (ttl : Int) (e : Option Entry) : Reply × Option Entry :=
  match live now e with
  | none => (.ok (.bool false), e)
  | some x => (.ok (.bool true), some { x with deadline := some (ahead now ttl) })

/-- What the documentation of Redis promises of the commands for lifetimes. -/
structure Server.Lifetimes (R : Server) : Prop where
  /-- A lifetime that does not fit is refused whatever the key holds. -/
  expire : ∀ ttl now, 0 < ttl → (∀ e, R.onKey (.expire ttl) now e = expired now ttl e) ∨
    ∃ msg, ∀ e, R.onKey (.expire ttl) now e = (.error msg, e)
  persistMissing : ∀ now e, live now e = none → R.onKey .persist now e = (.ok (.bool false), e)
  persist : ∀ now e x, live now e = some x → ∃ b, R.onKey .persist now e = (.ok (.bool b), some { x with deadline := none })
  ttl : ∀ now e, R.onKey .ttl now e = (.ok (.int (remaining now e)), e)
  «exists» : ∀ now e, R.onKey .exists now e = (.ok (.int (if (live now e).isSome then 1 else 0)), e)
  del : ∀ now e, R.onKey .del now e = (.ok (.int (if (live now e).isSome then 1 else 0)), none)

theorem live_iff {now : Nat} {x : Entry} : live now (some x) = some x ↔ ∀ d, x.deadline = some d → now < d := by
  rw [live, Option.filter_some]
  unfold Entry.alive
  cases hd : x.deadline with
  | none => simp
  | some d => simp

theorem live_or (now : Nat) (x : Entry) : live now (some x) = some x ∨ live now (some x) = none := by
  rw [live, Option.filter_some]
  split
  · exact Or.inl rfl
  · exact Or.inr rfl

section Laws
variable {R : Server} {ttl : Int} {now : Nat} {e : Option Entry} {x : Entry}

theorem Server.Lifetimes.atTtl (hR : R.Lifetimes) (key : String) (now : Nat) (s : Store) :
    R.atKey key .ttl now s = (.ok (.int (remaining now (s key))), s) := by
  rw [Server.atKey, hR.ttl, Store.set_same]

/-- A key with a lifetime ahead of it is there. -/
theorem live_ahead (httl : 0 < ttl) (v : Value) : live now (some ⟨v, some (ahead now ttl)⟩) = some ⟨v, some (ahead now ttl)⟩ := by
  have halive : Entry.alive now ⟨v, some (ahead now ttl)⟩ = true := by
    refine decide_eq_true ?_
    unfold ahead
    omega
  rw [live, Option.filter_some, if_pos halive]

/-- So is a key with the deadline of one that was there. -/
theorem live_deadlineOf (now : Nat) (e : Option Entry) (v : Value) :
    live now (some ⟨v, deadlineOf now e⟩) = some ⟨v, deadlineOf now e⟩ := by
  have halive : Entry.alive now ⟨v, deadlineOf now e⟩ = true := by
    unfold deadlineOf
    cases hl : live now e with
    | none => rfl
    | some x =>
      have hx : x.alive now = true := (Option.filter_eq_some_iff.mp hl).2
      exact hx
  rw [live, Option.filter_some, if_pos halive]

theorem deadlineOf_some (now : Nat) (e : Option Entry) (v : Value) :
    deadlineOf now (some ⟨v, deadlineOf now e⟩) = deadlineOf now e := by
  rw [deadlineOf, live_deadlineOf]
  rfl

theorem live_forever (v : Value) : live now (some ⟨v, none⟩) = some ⟨v, none⟩ := rfl

theorem live_deadlineFor (now : Nat) (ttl : Int) (v : Value) :
    live now (some ⟨v, deadlineFor now ttl⟩) = some ⟨v, deadlineFor now ttl⟩ := by
  unfold deadlineFor
  split
  · rename_i httl
    exact live_ahead httl v
  · exact live_forever v

theorem remaining_missing {now : Nat} {e : Option Entry} : remaining now e = -2 ↔ live now e = none := by
  unfold remaining
  split
  · rename_i h
    exact ⟨fun _ => h, fun _ => rfl⟩
  · rename_i h
    rw [h]
    simp
  · rename_i h
    rw [h]
    simp only [reduceCtorEq]

end Laws

/-- What the documentation of Redis promises of `SET .. NX EX`. A lifetime that does not fit is an error. -/
structure Server.Locks (R : Server) : Prop where
  free : ∀ value ttl now e, 0 < ttl → live now e = none → (∃ msg, R.onKey (.set value (some ttl) true) now e = (.error msg, e)) ∨
    R.onKey (.set value (some ttl) true) now e = (.ok (.bool true), some ⟨.str value, some (ahead now ttl)⟩)
  held : ∀ value ttl now e x, 0 < ttl → live now e = some x →
    (∃ msg, R.onKey (.set value (some ttl) true) now e = (.error msg, e)) ∨
      R.onKey (.set value (some ttl) true) now e = (.ok .null, e)

/-! ### The reference server -/

theorem deadlineAt_eq {now d : Nat} {ttl : Int} (h : deadlineAt now ttl = some d) : d = ahead now ttl := by
  unfold deadlineAt at h
  split at h
  · exact (Option.some.inj h).symm
  · cases h

theorem reference_lifetimes : reference.Lifetimes where
  expire ttl now httl := by
    have hexpire : ∀ e, reference.onKey (.expire ttl) now e = Redis.expire now ttl e := fun _ => rfl
    cases hd : deadlineAt now ttl with
    | none =>
      refine Or.inr ⟨"ERR invalid expire time in 'expire' command", fun e => ?_⟩
      rw [hexpire, Redis.expire, if_neg (by omega), hd]
    | some d =>
      refine Or.inl fun e => ?_
      rw [hexpire, Redis.expire, if_neg (by omega), hd, deadlineAt_eq hd]
      rfl
  persistMissing now e hl := by
    show Redis.persist now e = _
    unfold Redis.persist
    rw [hl]
  persist now e x hl := by
    have hpersist : reference.onKey .persist now e = Redis.persist now e := rfl
    rw [hpersist]
    unfold Redis.persist
    rw [hl]
    obtain ⟨v, d⟩ := x
    cases d with
    | none => exact ⟨false, by rw [live_eq_some hl]⟩
    | some d => exact ⟨true, rfl⟩
  ttl now e := rfl
  «exists» now e := rfl
  del now e := rfl

theorem reference_locks : reference.Locks where
  free value ttl now e httl hl := by
    have hset : reference.onKey (.set value (some ttl) true) now e = setCmd now value (some ttl) true e := rfl
    rw [hset]
    cases hd : deadlineAt now ttl with
    | none => simp [setCmd, hd]
    | some d => simp [setCmd, hd, hl, deadlineAt_eq hd]
  held value ttl now e x httl hl := by
    have hset : reference.onKey (.set value (some ttl) true) now e = setCmd now value (some ttl) true e := rfl
    rw [hset]
    cases hd : deadlineAt now ttl with
    | none => simp [setCmd, hd]
    | some d => simp [setCmd, hd, hl]

end Redgw.Redis
