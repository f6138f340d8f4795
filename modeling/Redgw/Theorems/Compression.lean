import Redgw.FileLogger.Compress

/-! # What compression keeps

The file itself survives every failure, in its own place or as a complete archive. An archive that was there
before does not: it is overwritten or removed, whatever fails. -/

namespace Redgw.FileLogger

variable {ρ : Type}

/-- The file is kept or completely archived, and what the archive held can still be read. -/
structure Slot.Preserved (s t : Slot ρ) : Prop where
  plain : ∀ c, s.plain = some c → t.plain = some c ∨ t.archive = some ⟨c, true⟩
  archive : s.archiveData <:+: t.archiveData ∨ s.archiveData <:+: t.plainData

/-- The archive is not opened: the file is missing, or it cannot be opened, or the archive cannot. -/
def NeverOpened (s : Slot ρ) (fault : Option Fault) : Prop :=
  s.plain = none ∨ fault = some .openPlain ∨ fault = some .openArchive

theorem Slot.discard_plain (s : Slot ρ) (b : Bool) : (s.discard b).plain = s.plain := by
  cases b <;> rfl

/-- The file survives. -/
theorem compressFile_plain {s : Slot ρ} {c : List ρ} (h : s.plain = some c) (fault : Option Fault) (b : Bool) :
    (compressFile s fault b).plain = some c ∨ (compressFile s fault b).archive = some ⟨c, true⟩ := by
  unfold compressFile
  rw [h]
  cases fault with
  | none => exact Or.inr rfl
  | some f =>
    cases f with
    | openPlain => exact Or.inl ((s.discard_plain b).trans h)
    | openArchive => exact Or.inl ((s.discard_plain b).trans h)
    | copy k => exact Or.inl (Slot.discard_plain _ b)
    | unlink => exact Or.inr rfl

/-- When the archive is not opened it is removed, or everything stays as it was. -/
theorem compressFile_unopened {s : Slot ρ} {fault : Option Fault} (h : NeverOpened s fault) (b : Bool) :
    compressFile s fault b = s.discard b := by
  unfold compressFile
  cases hp : s.plain with
  | none => rfl
  | some c =>
    rcases h with hnone | rfl | rfl
    · rw [hp] at hnone
      cases hnone
    · rfl
    · rfl

/-- When it is opened, what can be read afterwards is of the file. -/
theorem compressFile_opened {s : Slot ρ} {fault : Option Fault} (h : ¬NeverOpened s fault) (b : Bool) :
    ((compressFile s fault b).archiveData <:+: s.plainData ∧ (compressFile s fault b).plainData <:+: s.plainData) ∧
      ((compressFile s fault b).archiveData = s.plainData ∨ (compressFile s fault b).plainData = s.plainData) := by
  unfold NeverOpened at h
  cases hp : s.plain with
  | none => exact absurd (Or.inl hp) h
  | some c =>
    have hdata : s.plainData = c := by simp [Slot.plainData, hp]
    rw [hdata]
    unfold compressFile
    rw [hp]
    cases fault with
    | none => simp [Slot.archiveData, Slot.plainData]
    | some f =>
      cases f with
      | openPlain => exact absurd (Or.inr (Or.inl rfl)) h
      | openArchive => exact absurd (Or.inr (Or.inr rfl)) h
      | copy k =>
        have htake : c.take k <:+: c := (List.take_prefix k c).isInfix
        cases b <;> simp [Slot.discard, Slot.archiveData, Slot.plainData, htake]
      | unlink => simp [Slot.archiveData, Slot.plainData]

/-- Nothing is lost exactly when what the archive held is part of the file, or the archive is neither opened nor
    removed. -/
theorem compressFile_preserved_iff (s : Slot ρ) (fault : Option Fault) (cleanupFails : Bool) :
    s.Preserved (compressFile s fault cleanupFails) ↔
      s.archiveData <:+: s.plainData ∨ NeverOpened s fault ∧ cleanupFails = true := by
  have hplain := fun c (h : s.plain = some c) => compressFile_plain h fault cleanupFails
  by_cases hopen : NeverOpened s fault
  · rw [compressFile_unopened hopen] at hplain ⊢
    cases cleanupFails with
    | true => simpa [hopen, Slot.discard] using ⟨fun c h => Or.inl h, Or.inl (List.infix_refl _)⟩
    | false =>
      simp only [Bool.false_eq_true, and_false, or_false]
      constructor
      · rintro ⟨-, hnone | hkept⟩
        · have hnil : s.archiveData = [] := List.infix_nil.mp hnone
          rw [hnil]
          exact List.nil_infix
        · exact hkept
      · intro h
        exact ⟨hplain, Or.inr h⟩
  · obtain ⟨⟨harchive, hfile⟩, hone⟩ := compressFile_opened hopen cleanupFails
    simp only [hopen, false_and, or_false]
    constructor
    · rintro ⟨-, hkept | hkept⟩
      · exact hkept.trans harchive
      · exact hkept.trans hfile
    · intro h
      refine ⟨hplain, ?_⟩
      rcases hone with hone | hone
      · exact Or.inl (hone ▸ h)
      · exact Or.inr (hone ▸ h)

/-- A file that is gone when the compression begins: its archive is removed. -/
theorem missing_file_archive_lost : ¬∀ (s : Slot Nat) (fault : Option Fault),
    s.Preserved (compressFile s fault false) := by
  intro h
  have hlost := (h ⟨none, some ⟨[1, 2], true⟩⟩ none).archive
  simp [compressFile, Slot.discard, Slot.archiveData, Slot.plainData] at hlost

end Redgw.FileLogger
