import Mathlib.Data.List.AList
import Mathlib.Logic.Function.Basic

/-! # Names and inodes

A directory has names for inodes. A stream that is open goes on with its inode, whatever becomes of the name, so
a file is lost when its last name goes. -/

variable {N C : Type} [DecidableEq N]

structure Inodes (N C : Type) [DecidableEq N] where
  names : AList fun _ : N => Nat
  content : Nat → C
  next : Nat
  bound : ∀ n i, names.lookup n = some i → i < next

namespace Inodes

def empty (c : C) : Inodes N C := ⟨∅, fun _ => c, 0, fun _ _ h => by cases h⟩

/-! ### Operations -/

def find (d : Inodes N C) (n : N) : Option Nat := d.names.lookup n

/-- What is in the file of a name. -/
def read (d : Inodes N C) (n : N) : Option C := (d.find n).map d.content

def write (d : Inodes N C) (i : Nat) (c : C) : Inodes N C := { d with content := Function.update d.content i c }

/-- A new file. -/
def create (d : Inodes N C) (n : N) (c : C) : Inodes N C where
  names := d.names.insert n d.next
  content := Function.update d.content d.next c
  next := d.next + 1
  bound m i h := by
    by_cases hm : m = n
    · subst hm
      rw [AList.lookup_insert] at h
      cases h
      exact Nat.lt_succ_self _
    · rw [AList.lookup_insert_ne hm] at h
      exact Nat.lt_succ_of_lt (d.bound m i h)

/-- The inode of a name, which is made when it is not there. -/
def openAt (d : Inodes N C) (n : N) (c : C) : Nat × Inodes N C :=
  match d.find n with
  | some i => (i, d)
  | none => (d.next, d.create n c)

def unlink (d : Inodes N C) (n : N) : Inodes N C where
  names := d.names.erase n
  content := d.content
  next := d.next
  bound m i h := by
    by_cases hm : m = n
    · subst hm
      rw [AList.lookup_erase] at h
      cases h
    · rw [AList.lookup_erase_ne hm] at h
      exact d.bound m i h

/-- The file of the first name gets the second, instead of what had it. `none`: there is no such file. -/
def rename (d : Inodes N C) (m n : N) : Option (Inodes N C) :=
  match h : d.find m with
  | none => none
  | some i => some
    { names := (d.names.erase m).insert n i
      content := d.content
      next := d.next
      bound := fun k j hk => by
        by_cases hn : k = n
        · subst hn
          rw [AList.lookup_insert] at hk
          cases hk
          exact d.bound m i h
        · rw [AList.lookup_insert_ne hn] at hk
          exact (d.unlink m).bound k j hk }

/-! ### What is in the files -/

variable {d : Inodes N C} {m n : N} {i j : Nat} {c : C} {P : C → Prop}

/-- The inode has a name. -/
def Linked (d : Inodes N C) (i : Nat) : Prop := ∃ n, d.find n = some i

/-- Some file is so. -/
def Stored (d : Inodes N C) (P : C → Prop) : Prop := ∃ i, d.Linked i ∧ P (d.content i)

instance (d : Inodes N C) (i : Nat) : Decidable (d.Linked i) :=
  decidable_of_iff (∃ n ∈ d.names.keys, d.find n = some i)
    ⟨fun ⟨n, _, hn⟩ => ⟨n, hn⟩, fun ⟨n, hn⟩ => ⟨n, AList.mem_keys.mp (AList.lookup_isSome.mp (by rw [← find, hn]; rfl)), hn⟩⟩

instance (d : Inodes N C) (P : C → Prop) [DecidablePred P] : Decidable (d.Stored P) :=
  decidable_of_iff (∃ n ∈ d.names.keys, ∃ i ∈ d.find n, P (d.content i))
    ⟨fun ⟨n, _, i, hn, hP⟩ => ⟨i, ⟨n, hn⟩, hP⟩, fun ⟨i, ⟨n, hn⟩, hP⟩ =>
      ⟨n, AList.mem_keys.mp (AList.lookup_isSome.mp (by rw [← find, hn]; rfl)), i, hn, hP⟩⟩

theorem Linked.lt (h : d.Linked i) : i < d.next := by
  obtain ⟨n, hn⟩ := h
  exact d.bound n i hn

@[simp] theorem find_write : (d.write i c).find n = d.find n := rfl

@[simp] theorem linked_write : (d.write i c).Linked j ↔ d.Linked j := Iff.rfl

theorem content_write_of_ne (h : j ≠ i) : (d.write i c).content j = d.content j := Function.update_of_ne h ..

@[simp] theorem content_write : (d.write i c).content i = c := Function.update_self ..

theorem find_create : (d.create n c).find n = some d.next := AList.lookup_insert ..

theorem find_create_of_ne (h : m ≠ n) : (d.create n c).find m = d.find m := AList.lookup_insert_ne h

theorem content_create : (d.create n c).content d.next = c := Function.update_self ..

theorem content_create_of_lt (h : j < d.next) : (d.create n c).content j = d.content j :=
  Function.update_of_ne (Nat.ne_of_lt h) ..

theorem find_unlink : (d.unlink n).find n = none := AList.lookup_erase ..

theorem find_unlink_of_ne (h : m ≠ n) : (d.unlink n).find m = d.find m := AList.lookup_erase_ne h

@[simp] theorem content_unlink : (d.unlink n).content = d.content := rfl

/-- Where a rename leads the names. -/
structure Renamed (d : Inodes N C) (m n : N) (e : Inodes N C) : Prop where
  content : e.content = d.content
  next : e.next = d.next
  source : ∃ i, d.find m = some i ∧ e.find n = some i
  rest : ∀ k, k ≠ m → k ≠ n → e.find k = d.find k

theorem rename_renamed {e : Inodes N C} (h : d.rename m n = some e) : Renamed d m n e := by
  unfold rename at h
  split at h
  · cases h
  · rename_i i hi
    cases h
    refine ⟨rfl, rfl, ⟨i, hi, AList.lookup_insert ..⟩, fun k hm hn => ?_⟩
    exact (AList.lookup_insert_ne hn).trans (AList.lookup_erase_ne hm)

/-! ### What stays in them -/

theorem Linked.create (h : d.Linked i) (hnone : d.find n = none) : (d.create n c).Linked i := by
  obtain ⟨m, hm⟩ := h
  refine ⟨m, ?_⟩
  rw [find_create_of_ne, hm]
  rintro rfl
  cases hm.symm.trans hnone

theorem Linked.unlink (h : d.Linked i) : (d.unlink n).Linked i ∨ d.find n = some i := by
  obtain ⟨m, hm⟩ := h
  by_cases hmn : m = n
  · subst hmn
    exact Or.inr hm
  · exact Or.inl ⟨m, (find_unlink_of_ne hmn).trans hm⟩

/-- A file keeps a name over a rename, unless it had the name that another file gets. -/
theorem Linked.rename {e : Inodes N C} (h : d.Linked i) (he : Renamed d m n e) (hnone : d.find n = none) :
    e.Linked i := by
  obtain ⟨k, hk⟩ := h
  by_cases hkm : k = m
  · subst hkm
    obtain ⟨j, hj, hn⟩ := he.source
    cases hk.symm.trans hj
    exact ⟨n, hn⟩
  · refine ⟨k, (he.rest k hkm ?_).trans hk⟩
    rintro rfl
    cases hk.symm.trans hnone

theorem Stored.write (h : d.Stored P) (hc : P (d.content i) → P c) : (d.write i c).Stored P := by
  obtain ⟨j, hj, hP⟩ := h
  refine ⟨j, hj, ?_⟩
  by_cases hji : j = i
  · subst hji
    rw [content_write]
    exact hc hP
  · rwa [content_write_of_ne hji]

theorem Stored.create (h : d.Stored P) (hnone : d.find n = none) : (d.create n c).Stored P := by
  obtain ⟨j, hj, hP⟩ := h
  refine ⟨j, hj.create hnone, ?_⟩
  rwa [content_create_of_lt hj.lt]

theorem Stored.openAt (h : d.Stored P) (n : N) (c : C) : (d.openAt n c).2.Stored P := by
  unfold Inodes.openAt
  split
  · exact h
  · rename_i hnone
    exact h.create hnone

theorem Stored.unlink (h : d.Stored P) : (d.unlink n).Stored P ∨ ∃ i, d.find n = some i ∧ P (d.content i) := by
  obtain ⟨j, hj, hP⟩ := h
  rcases hj.unlink (n := n) with hj | hn
  · exact Or.inl ⟨j, hj, hP⟩
  · exact Or.inr ⟨j, hn, hP⟩

theorem Stored.rename {e : Inodes N C} (h : d.Stored P) (he : Renamed d m n e) (hnone : d.find n = none) :
    e.Stored P := by
  obtain ⟨j, hj, hP⟩ := h
  refine ⟨j, hj.rename he hnone, ?_⟩
  rwa [he.content]

theorem rename_none (h : d.find m = none) : d.rename m n = none := by
  unfold rename
  split
  · rfl
  · rename_i hi
    cases hi.symm.trans h

theorem next_openAt_le (n : N) (c : C) : d.next ≤ (d.openAt n c).2.next := by
  unfold openAt
  split
  · exact Nat.le_refl _
  · exact Nat.le_succ _

theorem content_openAt_of_lt (h : i < d.next) : (d.openAt n c).2.content i = d.content i := by
  unfold openAt
  split
  · rfl
  · exact content_create_of_lt h

end Inodes
