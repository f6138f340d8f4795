import Mathlib.Data.List.Infix

/-! # Compressing a backup

`_compress_file` copies a file into a gzip file beside it and then removes it. Each of its operations may
fail, and other code sees the files between any two of them. -/

namespace Redgw.FileLogger

variable {ρ : Type}

/-- A gzip file: what can be read of it, and whether it was written to its end. -/
structure Archive (ρ : Type) where
  data : List ρ
  complete : Bool
deriving DecidableEq

/-- The file of a name and the one of the name with `.gz`. -/
structure Slot (ρ : Type) where
  plain : Option (List ρ)
  archive : Option (Archive ρ)
deriving DecidableEq

/-- What can be read of the file; nothing if there is none. -/
def Slot.plainData (s : Slot ρ) : List ρ := s.plain.getD []

/-- What can be read of the archive; nothing if there is none. -/
def Slot.archiveData (s : Slot ρ) : List ρ := s.archive.elim [] (·.data)

/-- The operation of the `try` block or after it that fails. A read, a write or the final flush fails when so
    much of the file is in the archive. -/
inductive Fault
  | openPlain
  | openArchive
  | copy (copied : Nat)
  | unlink
deriving DecidableEq

/-- `gz_path.unlink(missing_ok=True)`, which may fail as well. -/
def Slot.discard (s : Slot ρ) (cleanupFails : Bool) : Slot ρ :=
  if cleanupFails then s else { s with archive := none }

/-- `_compress_file` -/
def compressFile (s : Slot ρ) (fault : Option Fault) (cleanupFails : Bool) : Slot ρ :=
  match s.plain, fault with
  | none, _ => s.discard cleanupFails
  | some _, some .openPlain => s.discard cleanupFails
  | some _, some .openArchive => s.discard cleanupFails
  | some c, some (.copy k) => { s with archive := some ⟨c.take k, false⟩ }.discard cleanupFails
  | some c, some .unlink => { s with archive := some ⟨c, true⟩ }
  | some c, none => { plain := none, archive := some ⟨c, true⟩ }

/-! ### Operation by operation -/

/-- The next operation: to open the file, to open the archive, to copy on, to remove the file, or to remove
    the archive. The file is read through the stream that was opened. -/
inductive Stage (ρ : Type)
  | start
  | opened (content : List ρ)
  | copying (content : List ρ) (copied : Nat)
  | copied
  | failed
deriving DecidableEq

/-- One operation, which succeeds or fails. After the last there is no next one. -/
def Stage.step (s : Slot ρ) (ok : Bool) : Stage ρ → Slot ρ × Option (Stage ρ)
  | .start =>
    match s.plain, ok with
    | some c, true => (s, some (.opened c))
    | _, _ => (s, some .failed)
  | .opened c =>
    -- `gzip.open(.., "wb")` truncates what is there.
    if ok then ({ s with archive := some ⟨[], false⟩ }, some (.copying c 0)) else (s, some .failed)
  | .copying c k =>
    if ok then
      if k < c.length then ({ s with archive := some ⟨c.take (k + 1), false⟩ }, some (.copying c (k + 1)))
      else ({ s with archive := some ⟨c, true⟩ }, some .copied)
    else (s, some .failed)
  | .copied => (if ok then { s with plain := none } else s, none)
  | .failed => (s.discard !ok, none)

/-- The operations until the return, or as many as there are outcomes given. -/
def compressSteps (s : Slot ρ) : Option (Stage ρ) → List Bool → Slot ρ × Option (Stage ρ)
  | some stage, ok :: oks =>
    let next := stage.step s ok
    compressSteps next.1 next.2 oks
  | stage, _ => (s, stage)

@[simp] theorem compressSteps_none (s : Slot ρ) (oks : List Bool) : compressSteps s none oks = (s, none) := by
  cases oks <;> rfl

theorem compressSteps_cons (s : Slot ρ) (stage : Stage ρ) (ok : Bool) (oks : List Bool) :
    compressSteps s (some stage) (ok :: oks) = compressSteps (stage.step s ok).1 (stage.step s ok).2 oks := rfl

/-- After a failure only the archive is still to be removed. -/
theorem compressSteps_failed {s t : Slot ρ} {oks : List Bool} (h : compressSteps s (some .failed) oks = (t, none)) :
    ∃ cleanupFails, t = s.discard cleanupFails := by
  cases oks with
  | nil => cases h
  | cons ok oks =>
    rw [compressSteps_cons] at h
    simp only [Stage.step, compressSteps_none] at h
    exact ⟨!ok, (Prod.mk.inj h).1.symm⟩

theorem compressSteps_copied {s t : Slot ρ} {oks : List Bool} (h : compressSteps s (some .copied) oks = (t, none)) :
    t = s ∨ t = { s with plain := none } := by
  cases oks with
  | nil => cases h
  | cons ok oks =>
    rw [compressSteps_cons] at h
    simp only [Stage.step, compressSteps_none] at h
    cases ok with
    | false => exact Or.inl (Prod.mk.inj h).1.symm
    | true => exact Or.inr (Prod.mk.inj h).1.symm

/-- From the middle of the copy: it fails at some point, or the archive is complete. -/
theorem compressSteps_copying {p : Option (List ρ)} {c : List ρ} {k : Nat} {t : Slot ρ} {oks : List Bool}
    (h : compressSteps ⟨p, some ⟨c.take k, false⟩⟩ (some (.copying c k)) oks = (t, none)) :
    (∃ n b, t = Slot.discard ⟨p, some ⟨c.take n, false⟩⟩ b) ∨ t = ⟨p, some ⟨c, true⟩⟩ ∨ t = ⟨none, some ⟨c, true⟩⟩ := by
  induction oks generalizing k with
  | nil => cases h
  | cons ok oks ih =>
    rw [compressSteps_cons] at h
    cases ok with
    | false =>
      obtain ⟨b, hb⟩ := compressSteps_failed h
      exact Or.inl ⟨k, b, hb⟩
    | true =>
      simp only [Stage.step, if_true] at h
      split at h
      · exact ih h
      · exact Or.inr (compressSteps_copied h)

/-- Every run of the operations to the end is a call with some failure or with none. -/
theorem compressSteps_done {s t : Slot ρ} {oks : List Bool} (h : compressSteps s (some .start) oks = (t, none)) :
    ∃ fault cleanupFails, t = compressFile s fault cleanupFails := by
  obtain ⟨p, archive⟩ := s
  cases oks with
  | nil => cases h
  | cons ok oks =>
    rw [compressSteps_cons] at h
    cases p with
    | none =>
      obtain ⟨b, rfl⟩ := compressSteps_failed h
      exact ⟨none, b, rfl⟩
    | some c =>
      cases ok with
      | false =>
        obtain ⟨b, rfl⟩ := compressSteps_failed h
        exact ⟨some .openPlain, b, rfl⟩
      | true =>
        simp only [Stage.step] at h
        cases oks with
        | nil => cases h
        | cons ok oks =>
          rw [compressSteps_cons] at h
          cases ok with
          | false =>
            obtain ⟨b, rfl⟩ := compressSteps_failed h
            exact ⟨some .openArchive, b, rfl⟩
          | true =>
            rcases compressSteps_copying (k := 0) h with ⟨n, b, rfl⟩ | rfl | rfl
            · exact ⟨some (.copy n), b, rfl⟩
            · exact ⟨some .unlink, false, rfl⟩
            · exact ⟨none, false, rfl⟩

end Redgw.FileLogger
