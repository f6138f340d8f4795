import Mathlib.Data.List.Basic

/-! # Leases

A lock that is won for a fixed time, and frees itself. Whoever tries for it at a time wins it if it is free then.
Between two wins lies at least that time, and whoever is refused is refused within that time of a win. -/

namespace Lease

structure Attempt where
  time : Nat
  won : Bool
deriving DecidableEq

/-- The times at which the lock was won. -/
def wins (attempts : List Attempt) : List Nat := (attempts.filter (·.won)).map (·.time)

/-- What the attempts so far have left behind: the lock is held up to `deadline`. -/
structure Inv (ttl : Nat) (attempts : List Attempt) (deadline : Option Nat) : Prop where
  last : deadline = (wins attempts).getLast?.map (· + ttl)
  spaced : (wins attempts).Pairwise fun a b => a + ttl ≤ b
  covered : ∀ i a, attempts[i]? = some a → a.won = false → ∃ w ∈ wins (attempts.take i), a.time < w + ttl

section Attempts
variable {ttl now : Nat} {attempts : List Attempt} {deadline : Option Nat}

theorem wins_won (attempts : List Attempt) (now : Nat) : wins (attempts ++ [⟨now, true⟩]) = wins attempts ++ [now] := by
  simp [wins]

theorem wins_refused (attempts : List Attempt) (now : Nat) : wins (attempts ++ [⟨now, false⟩]) = wins attempts := by
  simp [wins]

theorem inv_nil (ttl : Nat) : Inv ttl [] none where
  last := rfl
  spaced := .nil
  covered i a h := by cases h

/-- The last win is the latest one. -/
theorem Inv.le_deadline (h : Inv ttl attempts deadline) {w : Nat} (hw : w ∈ wins attempts) :
    ∃ d, deadline = some d ∧ w + ttl ≤ d := by
  have hspaced := h.spaced
  rw [h.last]
  rcases List.eq_nil_or_concat (wins attempts) with hnil | ⟨ws, l, hws⟩
  · rw [hnil] at hw
    cases hw
  · rw [hws] at hw hspaced
    rw [List.concat_eq_append] at hws hw hspaced
    rw [hws, List.getLast?_concat]
    refine ⟨l + ttl, rfl, ?_⟩
    rcases List.mem_append.mp hw with hw | hw
    · have hle : w + ttl ≤ l := (List.pairwise_append.mp hspaced).2.2 w hw l (List.mem_singleton.mpr rfl)
      omega
    · exact List.mem_singleton.mp hw ▸ Nat.le_refl _

/-- An attempt more leaves the earlier ones as they were. -/
theorem covered_append {a' : Attempt} (h : Inv ttl attempts deadline)
    (ha' : a'.won = false → ∃ w ∈ wins attempts, a'.time < w + ttl) {i : Nat} {a : Attempt}
    (ha : (attempts ++ [a'])[i]? = some a) (hlost : a.won = false) :
    ∃ w ∈ wins ((attempts ++ [a']).take i), a.time < w + ttl := by
  rcases Nat.lt_or_ge i attempts.length with hi | hi
  · rw [List.getElem?_append_left hi] at ha
    rw [List.take_append_of_le_length (Nat.le_of_lt hi)]
    exact h.covered i a ha hlost
  · have hlt := (List.getElem?_eq_some_iff.mp ha).1
    have hlen : i = attempts.length := by
      rw [List.length_append, List.length_singleton] at hlt
      omega
    subst hlen
    rw [List.getElem?_concat_length] at ha
    cases ha
    rw [List.take_append_of_le_length (Nat.le_refl _), List.take_length]
    exact ha' hlost

theorem Inv.won (h : Inv ttl attempts deadline) (hfree : ∀ d, deadline = some d → d ≤ now) :
    Inv ttl (attempts ++ [⟨now, true⟩]) (some (now + ttl)) where
  last := by simp [wins_won]
  spaced := by
    rw [wins_won]
    refine List.pairwise_append.mpr ⟨h.spaced, List.pairwise_singleton _ _, fun w hw l hl => ?_⟩
    obtain ⟨d, hd, hle⟩ := h.le_deadline hw
    rw [List.mem_singleton.mp hl]
    exact Nat.le_trans hle (hfree d hd)
  covered i a ha hlost := covered_append h (fun hwon => by cases hwon) ha hlost

theorem Inv.refused (h : Inv ttl attempts deadline) (hheld : ∃ d, deadline = some d ∧ now < d) :
    Inv ttl (attempts ++ [⟨now, false⟩]) deadline where
  last := by
    rw [wins_refused]
    exact h.last
  spaced := by
    rw [wins_refused]
    exact h.spaced
  covered i a ha hlost := by
    refine covered_append h (fun _ => ?_) ha hlost
    obtain ⟨d, hd, hlt⟩ := hheld
    have hlast := h.last
    rw [hd] at hlast
    obtain ⟨w, hw, hwd⟩ := Option.map_eq_some_iff.mp hlast.symm
    exact ⟨w, List.mem_of_getLast? hw, hwd ▸ hlt⟩

end Attempts

end Lease
