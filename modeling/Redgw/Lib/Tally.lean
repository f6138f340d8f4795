import Mathlib.Algebra.Ring.Int.Defs
import Redgw.Lib.Dict

/-! # Counting with a dictionary

`d[k] = d.get(k, 0) + 1`: the keys that were counted are there with their numbers, and the numbers add up to
how often was counted. -/

namespace Dict

/-- One more of `k`. -/
def bump (d : Dict Int) (k : String) : Dict Int := d.insert k ((d.items.lookup k).getD 0 + 1)

/-- The dictionary has the numbers of `f`, and no key that was not counted. -/
def Counts (f : String → Nat) (d : Dict Int) : Prop := ∀ k, d.items.lookup k = if f k = 0 then none else some (f k : Int)

/-- The sum of the values. -/
def total (d : Dict Int) : Int := (d.items.map (·.2)).sum

theorem counts_empty : Counts (fun _ => 0) empty := fun _ => rfl

theorem Counts.congr {f g : String → Nat} {d : Dict Int} (h : Counts f d) (hfg : ∀ k, f k = g k) : Counts g d := by
  intro k
  rw [h k, hfg k]

/-- A key that is counted has one more, the others what they had. -/
theorem Counts.bump {f g : String → Nat} {d : Dict Int} {k : String} (h : Counts f d) (hk : g k = f k + 1)
    (hne : ∀ x, x ≠ k → g x = f x) : Counts g (d.bump k) := by
  intro x
  unfold Dict.bump
  rw [lookup_insert]
  by_cases hx : x = k
  · subst hx
    have hold : (d.items.lookup x).getD 0 = (f x : Int) := by
      rw [h x]
      split
      · rename_i hzero
        rw [hzero]
        rfl
      · rfl
    rw [if_pos rfl, if_neg (by omega), hold, hk]
    rfl
  · rw [if_neg hx, h x, hne x hx]

theorem sum_put (items : List (String × Int)) (k : String) (v : Int) :
    ((put items k v).map (·.2)).sum = (items.map (·.2)).sum - (items.lookup k).getD 0 + v := by
  induction items with
  | nil => simp [put]
  | cons i items ih =>
    obtain ⟨k', v'⟩ := i
    rw [put, List.lookup_cons]
    by_cases hk : k' = k
    · subst hk
      simp
      omega
    · rw [if_neg hk, beq_eq_false_iff_ne.mpr (Ne.symm hk)]
      simp only [List.map_cons, List.sum_cons, ih]
      omega

theorem total_bump (d : Dict Int) (k : String) : (d.bump k).total = d.total + 1 := by
  show ((put d.items k _).map (·.2)).sum = (d.items.map (·.2)).sum + 1
  rw [sum_put]
  omega

end Dict
