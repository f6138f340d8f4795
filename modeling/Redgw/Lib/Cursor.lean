import Mathlib.Data.List.Nodup
import Mathlib.Data.List.Perm.Subperm

/-! # Reading a growing log by pages

A log grows at its end and may lose its oldest entries. A reader takes it page by page, each page from where
the last one ended: it gets every entry once and in order, but for those that were gone before it came to them. -/

namespace Cursor

/-- A log with all that it ever had, of which the first `gone` entries are no more there, and a reader at `pos`. -/
structure Reading (α : Type) where
  log : List α
  gone : Nat
  pos : Nat
  got : List α
  gone_le : gone ≤ log.length
  pos_le : pos ≤ log.length
  sublist : got.Sublist (log.take pos)
  skipped : ∀ y ∈ log.take pos, y ∈ got ∨ y ∈ log.take gone

namespace Reading
variable {α : Type}

/-- Before the first page. -/
def start (log : List α) : Reading α where
  log := log
  gone := 0
  pos := 0
  got := []
  gone_le := Nat.zero_le _
  pos_le := Nat.zero_le _
  sublist := List.nil_sublist _
  skipped := nofun

/-- What is still there. -/
def kept (r : Reading α) : List α := r.log.drop r.gone

def append (r : Reading α) (x : α) : Reading α where
  log := r.log ++ [x]
  gone := r.gone
  pos := r.pos
  got := r.got
  gone_le := by
    rw [List.length_append]
    exact Nat.le_add_right_of_le r.gone_le
  pos_le := by
    rw [List.length_append]
    exact Nat.le_add_right_of_le r.pos_le
  sublist := by
    rw [List.take_append_of_le_length r.pos_le]
    exact r.sublist
  skipped := by
    rw [List.take_append_of_le_length r.pos_le, List.take_append_of_le_length r.gone_le]
    exact r.skipped

theorem kept_append (r : Reading α) (x : α) : (r.append x).kept = r.kept ++ [x] := List.drop_append_of_le_length r.gone_le

/-- The oldest `n` go. -/
def trim (r : Reading α) (n : Nat) : Reading α where
  log := r.log
  gone := min (r.gone + n) r.log.length
  pos := r.pos
  got := r.got
  gone_le := Nat.min_le_right _ _
  pos_le := r.pos_le
  sublist := r.sublist
  skipped y hy := (r.skipped y hy).imp_right fun h =>
    (List.take_sublist_take_left (Nat.le_min.mpr ⟨Nat.le_add_right _ _, r.gone_le⟩)).subset h

theorem kept_trim (r : Reading α) (n : Nat) : (r.trim n).kept = r.kept.drop n := by
  show r.log.drop (min (r.gone + n) r.log.length) = (r.log.drop r.gone).drop n
  rw [List.drop_drop]
  rcases Nat.le_total (r.gone + n) r.log.length with h | h
  · rw [Nat.min_eq_left h]
  · rw [Nat.min_eq_right h, List.drop_eq_nil_of_le (Nat.le_refl _), List.drop_eq_nil_of_le h]

/-- The next page of `n`: what is still there behind the reader. -/
def next (r : Reading α) (n : Nat) : List α := (r.log.drop (max r.gone r.pos)).take n

theorem take_next (r : Reading α) (n : Nat) :
    r.log.take (max r.gone r.pos + (r.next n).length) = r.log.take (max r.gone r.pos) ++ r.next n := by
  rw [List.take_add]
  congr 1
  unfold next
  rw [List.length_take, ← List.take_take, List.take_of_length_le (Nat.le_refl _)]

/-- The reader takes its page. -/
def turn (r : Reading α) (n : Nat) : Reading α where
  log := r.log
  gone := r.gone
  pos := max r.gone r.pos + (r.next n).length
  got := r.got ++ r.next n
  gone_le := r.gone_le
  pos_le := by
    have hmax : max r.gone r.pos ≤ r.log.length := Nat.max_le.mpr ⟨r.gone_le, r.pos_le⟩
    have hpage : (r.next n).length ≤ r.log.length - max r.gone r.pos := by
      unfold next
      rw [List.length_take, List.length_drop]
      exact Nat.min_le_right _ _
    omega
  sublist := by
    rw [take_next]
    exact (r.sublist.trans (List.take_sublist_take_left (Nat.le_max_right _ _))).append (List.Sublist.refl _)
  skipped y hy := by
    rw [take_next, List.mem_append] at hy
    rw [List.mem_append]
    rcases hy with hy | hy
    · rcases Nat.le_total r.gone r.pos with h | h
      · rw [Nat.max_eq_right h] at hy
        exact (r.skipped y hy).imp_left Or.inl
      · rw [Nat.max_eq_left h] at hy
        exact Or.inr hy
    · exact Or.inl (Or.inr hy)

/-- An empty page is the end of the log. -/
theorem turn_of_nil {r : Reading α} {n : Nat} (hn : 0 < n) (h : r.next n = []) : (r.turn n).pos = r.log.length := by
  have hmax : max r.gone r.pos ≤ r.log.length := Nat.max_le.mpr ⟨r.gone_le, r.pos_le⟩
  have hend : r.log.length ≤ max r.gone r.pos := by
    rcases List.take_eq_nil_iff.mp h with hzero | hdrop
    · omega
    · exact List.drop_eq_nil_iff.mp hdrop
  show max r.gone r.pos + (r.next n).length = _
  rw [h, List.length_nil]
  omega

/-- What is still there behind the reader, by any test that tells the entries before it from those after it. -/
theorem filter_kept (r : Reading α) {after : α → Bool} (hbefore : ∀ y ∈ r.log.take r.pos, after y = false)
    (hafter : ∀ y ∈ r.log.drop r.pos, after y = true) : r.kept.filter after = r.log.drop (max r.gone r.pos) := by
  unfold kept
  rcases Nat.le_total r.gone r.pos with h | h
  · have hsplit : r.log.drop r.gone = (r.log.take r.pos).drop r.gone ++ r.log.drop r.pos := by
      conv_lhs => rw [← List.take_append_drop r.pos r.log]
      exact List.drop_append_of_le_length (by rw [List.length_take]; exact Nat.le_min.mpr ⟨h, r.gone_le⟩)
    have hnone : ((r.log.take r.pos).drop r.gone).filter after = [] := by
      rw [List.filter_eq_nil_iff]
      intro y hy
      simp [hbefore y (List.mem_of_mem_drop hy)]
    rw [hsplit, List.filter_append, hnone, List.nil_append, List.filter_eq_self.mpr hafter, Nat.max_eq_right h]
  · have hsub : ∀ y ∈ r.log.drop r.gone, after y = true := by
      intro y hy
      refine hafter y ?_
      rw [← Nat.add_sub_of_le h, ← List.drop_drop] at hy
      exact List.mem_of_mem_drop hy
    rw [List.filter_eq_self.mpr hsub, Nat.max_eq_left h]

/-- A reader from which nothing went has got the log up to its place. -/
theorem got_eq {r : Reading α} (hnodup : r.log.Nodup) (hkept : ∀ y ∈ r.log.take r.pos, y ∈ r.kept) : r.got = r.log.take r.pos := by
  have hsubset : r.log.take r.pos ⊆ r.got := by
    intro y hy
    rcases r.skipped y hy with hgot | hgone
    · exact hgot
    · have hsplit := hnodup
      rw [← List.take_append_drop r.gone r.log] at hsplit
      exact absurd rfl ((List.nodup_append.mp hsplit).2.2 y hgone y (hkept y hy))
  have hlength := ((hnodup.sublist (List.take_sublist _ _)).subperm hsubset).length_le
  exact r.sublist.eq_of_length_le hlength

end Reading

end Cursor
