import Mathlib.Data.List.Perm.Basic
import Mathlib.Order.Lattice

/-! # Evicting down to a cap

Elements are removed in a given order, as long as the sizes of all of them are more than a cap; those that
are held are passed over. -/

namespace Evict

variable {α : Type} (size : α → Nat)

/-- The sizes together. -/
def total (xs : List α) : Nat := xs.foldr (fun x n => size x + n) 0

/-- The elements that are removed while `left` is above the cap. -/
def evict (held : α → Bool) (cap : Nat) : Nat → List α → List α
  | _, [] => []
  | left, x :: xs =>
    if left ≤ cap then []
    else if held x then evict held cap left xs
    else x :: evict held cap (left - size x) xs

/-- The first `k` are the shortest beginning without which `left` is within the cap, or all if none is long
    enough. -/
structure Shortest (cap left : Nat) (xs : List α) (k : Nat) : Prop where
  bound : k ≤ xs.length
  before : ∀ j < k, cap + total size (xs.take j) < left
  after : left ≤ cap + total size (xs.take k) ∨ k = xs.length

variable {size}

theorem total_cons (x : α) (xs : List α) : total size (x :: xs) = size x + total size xs := rfl

theorem total_append (xs ys : List α) : total size (xs ++ ys) = total size xs + total size ys := by
  induction xs with
  | nil => exact (Nat.zero_add _).symm
  | cons x xs ih => rw [List.cons_append, total_cons, total_cons, ih, Nat.add_assoc]

theorem total_perm {xs ys : List α} (h : xs.Perm ys) : total size xs = total size ys := by
  induction h with
  | nil => rfl
  | cons x _ ih => rw [total_cons, total_cons, ih]
  | swap x y xs =>
    simp only [total_cons]
    omega
  | trans _ _ ih₁ ih₂ => exact ih₁.trans ih₂

/-- What is removed is the shortest beginning of what is not held. -/
theorem evict_shortest (size : α → Nat) (held : α → Bool) (cap left : Nat) (xs : List α) :
    ∃ k, evict size held cap left xs = (xs.filter fun x => !held x).take k ∧
      Shortest size cap left (xs.filter fun x => !held x) k := by
  induction xs generalizing left with
  | nil => exact ⟨0, rfl, Nat.le_refl _, by simp, Or.inr rfl⟩
  | cons x xs ih =>
    rw [evict]
    by_cases hcap : left ≤ cap
    · rw [if_pos hcap]
      exact ⟨0, rfl, Nat.zero_le _, by simp, Or.inl (Nat.le_trans hcap (Nat.le_add_right _ _))⟩
    · rw [if_neg hcap]
      cases hheld : held x with
      | true =>
        rw [if_pos rfl, List.filter_cons_of_neg (by simp [hheld])]
        exact ih left
      | false =>
        obtain ⟨k, hk, hbound, hbefore, hafter⟩ := ih (left - size x)
        rw [if_neg (by simp), List.filter_cons_of_pos (by simp [hheld]), hk]
        refine ⟨k + 1, rfl, Nat.succ_le_succ hbound, fun j hj => ?_, ?_⟩
        · cases j with
          | zero => simpa [total] using hcap
          | succ j =>
            have hj' := hbefore j (Nat.lt_of_succ_lt_succ hj)
            rw [List.take_succ_cons, total_cons]
            omega
        · rw [List.take_succ_cons, total_cons, List.length_cons]
          exact hafter.imp (fun h => by omega) (congrArg Nat.succ)

/-! ### Stable orders -/

section Stable
variable {β : Type} [LinearOrder β] (key : α → β)

/-- The elements in ascending order of their keys, those with the same key in the order they have in `xs`. -/
structure Stable (xs ys : List α) : Prop where
  perm : ys.Perm xs
  sorted : ys.Pairwise fun x y => key x ≤ key y
  ties : ∀ b, ys.filter (fun x => decide (key x = b)) = xs.filter fun x => decide (key x = b)

variable {key}

theorem stable_mergeSort (key : α → β) (xs : List α) : Stable key xs (xs.mergeSort fun x y => decide (key x ≤ key y)) := by
  have htrans : ∀ a b c : α, decide (key a ≤ key b) = true → decide (key b ≤ key c) = true →
      decide (key a ≤ key c) = true := fun a b c hab hbc =>
    decide_eq_true (le_trans (of_decide_eq_true hab) (of_decide_eq_true hbc))
  have htotal : ∀ a b : α, (decide (key a ≤ key b) || decide (key b ≤ key a)) = true := fun a b => by
    simpa using le_total (key a) (key b)
  refine ⟨List.mergeSort_perm _ _, ?_, fun b => ?_⟩
  · exact (List.pairwise_mergeSort htrans htotal xs).imp fun h => of_decide_eq_true h
  · -- The elements with one key are sorted as they stand, so they stand like this in the sorted list.
    have hsub : (xs.filter fun x => decide (key x = b)).Sublist (xs.mergeSort fun x y => decide (key x ≤ key y)) := by
      refine List.sublist_mergeSort htrans htotal ?_ List.filter_sublist
      refine List.pairwise_iff_forall_sublist.mpr fun {x y} hxy => ?_
      have hx : key x = b := by simpa using (List.mem_filter.mp (hxy.subset (by simp : x ∈ [x, y]))).2
      have hy : key y = b := by simpa using (List.mem_filter.mp (hxy.subset (by simp : y ∈ [x, y]))).2
      rw [hx, hy]
      exact decide_eq_true le_rfl
    have hfilter := hsub.filter fun x => decide (key x = b)
    rw [List.filter_filter, List.filter_congr (fun x _ => Bool.and_self _)] at hfilter
    refine (hfilter.eq_of_length ?_).symm
    exact ((List.mergeSort_perm xs _).filter _).length_eq.symm

/-- A part of the elements is in order where all of them are. -/
theorem Stable.filter {xs ys : List α} (h : Stable key xs ys) (p : α → Bool) : Stable key (xs.filter p) (ys.filter p) where
  perm := h.perm.filter p
  sorted := h.sorted.sublist List.filter_sublist
  ties b := by rw [List.filter_comm, h.ties b, List.filter_comm]

/-- There is one such order. -/
theorem Stable.unique {xs ys zs : List α} (hy : Stable key xs ys) (hz : Stable key xs zs) : ys = zs := by
  have hties : ∀ b, ys.filter (fun x => decide (key x = b)) = zs.filter fun x => decide (key x = b) := fun b =>
    (hy.ties b).trans (hz.ties b).symm
  have hysorted := hy.sorted
  have hzsorted := hz.sorted
  clear hy hz
  induction ys generalizing zs with
  | nil =>
    cases zs with
    | nil => rfl
    | cons z zs =>
      have := hties (key z)
      simp at this
  | cons y ys ih =>
    cases zs with
    | nil =>
      have := hties (key y)
      simp at this
    | cons z zs =>
      have hle : ∀ {a b : α} {as bs : List α}, (b :: bs).Pairwise (fun x y => key x ≤ key y) →
          (a :: as).filter (fun x => decide (key x = key a)) = (b :: bs).filter (fun x => decide (key x = key a)) →
          key b ≤ key a := by
        intro a b as bs hsorted heq
        have hmem : a ∈ (b :: bs).filter fun x => decide (key x = key a) := heq ▸ by simp
        rcases List.mem_cons.mp (List.mem_filter.mp hmem).1 with rfl | hin
        · exact le_rfl
        · exact (List.pairwise_cons.mp hsorted).1 a hin
      have hkey : key y = key z := le_antisymm (hle hysorted (hties (key z)).symm) (hle hzsorted (hties (key y)))
      have hhead := hties (key y)
      rw [List.filter_cons_of_pos (by simp), List.filter_cons_of_pos (by simp [hkey])] at hhead
      obtain ⟨rfl, -⟩ := List.cons.inj hhead
      refine congrArg (y :: ·) (ih (fun b => ?_) hysorted.tail hzsorted.tail)
      have hb := hties b
      by_cases hyb : key y = b
      · rw [List.filter_cons_of_pos (by simp [hyb]), List.filter_cons_of_pos (by simp [hyb])] at hb
        exact (List.cons.inj hb).2
      · rwa [List.filter_cons_of_neg (by simp [hyb]), List.filter_cons_of_neg (by simp [hyb])] at hb

end Stable

end Evict
