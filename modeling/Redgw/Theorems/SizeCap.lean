import Redgw.FileLogger.SizeCap

/-! # What the cap on a log directory removes

The clean-up removes the oldest of the files that it may remove, and no more of them than the cap asks for. -/

namespace Redgw.FileLogger
open Evict

/-- The files that the pattern of the handler takes. -/
def CapHandler.matching (h : CapHandler) (dir : Listing) : List DirEntry := dir.entries.filter fun f => h.archiveRe f.name

/-- Those of them that are not the active file. -/
def CapHandler.removable (h : CapHandler) (resolve : String → String) (dir : Listing) : List DirEntry :=
  (h.matching dir).filter fun f => !decide (resolve f.name = h.active)

/-- The removable files from the oldest on, as many as it takes to bring the files of the handler within the cap, are
    gone and counted for the audit log; all others are as they were. -/
structure Capped (h : CapHandler) (resolve : String → String) (dir : Listing) (droppedDiskFull : Nat) (r : Cleaned) : Prop where
  oldest : ∃ order k, (∀ files, Stable DirEntry.mtime (h.removable resolve dir) files ↔ files = order) ∧
    r.unlinked = order.take k ∧ Shortest DirEntry.size h.maxTotalBytes (total DirEntry.size (h.matching dir)) order k
  left : r.listing.entries = dir.entries.filter fun f => !decide (f ∈ r.unlinked)
  active : ∀ f ∈ dir.entries, resolve f.name = h.active → f ∈ r.listing.entries
  others : ∀ f ∈ dir.entries, h.archiveRe f.name = false → f ∈ r.listing.entries
  dropped : r.droppedDiskFull = droppedDiskFull + if "audit".toList.isPrefixOf h.filePrefix.toList then r.unlinked.length else 0

section Cap
variable {h : CapHandler} {resolve : String → String} {dir : Listing} {dropped : Nat}

/-- A file is known by its name. -/
theorem Listing.eq_of_name {f g : DirEntry} (hf : f ∈ dir.entries) (hg : g ∈ dir.entries) (hname : f.name = g.name) : f = g :=
  List.inj_on_of_nodup_map dir.nodup hf hg hname

theorem Listing.without_entries {unlinked : List DirEntry} (hsub : ∀ f ∈ unlinked, f ∈ dir.entries) :
    (dir.without unlinked).entries = dir.entries.filter fun f => !decide (f ∈ unlinked) := by
  refine List.filter_congr fun f hf => ?_
  have hiff : f.name ∈ unlinked.map (·.name) ↔ f ∈ unlinked := by
    constructor
    · intro hmem
      obtain ⟨g, hg, hname⟩ := List.mem_map.mp hmem
      rwa [dir.eq_of_name hf (hsub g hg) hname.symm]
    · exact fun hmem => List.mem_map.mpr ⟨f, hmem, rfl⟩
  rw [decide_eq_decide.mpr hiff]

/-- It is enough to know which files were removed. -/
theorem Capped.of {r : Cleaned} {order : List DirEntry} {k : Nat} (hstable : Stable DirEntry.mtime (h.removable resolve dir) order)
    (hunlinked : r.unlinked = order.take k)
    (hshortest : Shortest DirEntry.size h.maxTotalBytes (total DirEntry.size (h.matching dir)) order k)
    (hleft : r.listing.entries = dir.entries.filter fun f => !decide (f ∈ r.unlinked))
    (hdropped : r.droppedDiskFull =
      dropped + if "audit".toList.isPrefixOf h.filePrefix.toList then r.unlinked.length else 0) :
    Capped h resolve dir dropped r := by
  have hremoved : ∀ f ∈ r.unlinked, h.archiveRe f.name = true ∧ resolve f.name ≠ h.active := by
    intro f hf
    have hmem : f ∈ h.removable resolve dir := hstable.perm.mem_iff.mp (List.mem_of_mem_take (hunlinked ▸ hf))
    obtain ⟨hmatching, hnot⟩ := List.mem_filter.mp hmem
    exact ⟨(List.mem_filter.mp hmatching).2, by simpa using hnot⟩
  have hkept : ∀ f ∈ dir.entries, f ∉ r.unlinked → f ∈ r.listing.entries := by
    intro f hf hnot
    rw [hleft]
    exact List.mem_filter.mpr ⟨hf, by simpa using hnot⟩
  exact {
    oldest := ⟨order, k, fun files => ⟨fun hfiles => hfiles.unique hstable, fun he => he ▸ hstable⟩, hunlinked, hshortest⟩
    left := hleft
    active := fun f hf hactive => hkept f hf fun hmem => (hremoved f hmem).2 hactive
    others := fun f hf hother => hkept f hf fun hmem => by
      rw [(hremoved f hmem).1] at hother
      cases hother
    dropped := hdropped }

/-- A directory within the cap stays as it is. -/
theorem capped_within (hwithin : total DirEntry.size (h.matching dir) ≤ h.maxTotalBytes) :
    Capped h resolve dir dropped ⟨[], dir, dropped⟩ := by
  refine .of (stable_mergeSort DirEntry.mtime _) (List.take_zero).symm ⟨Nat.zero_le _, by simp, Or.inl ?_⟩ ?_ ?_
  · exact Nat.le_trans hwithin (Nat.le_add_right _ _)
  · exact (List.filter_eq_self.mpr fun f _ => by simp).symm
  · simp

/-- The clean-up removes the oldest removable files and no more of them than it has to. -/
theorem cleanup_exact (hcap : 0 < h.maxTotalBytes) (resolve : String → String) (dir : Listing) (dropped : Nat) :
    Capped h resolve dir dropped (h.cleanupByTotalSize resolve dir dropped) := by
  unfold CapHandler.cleanupByTotalSize
  rw [if_neg (Nat.pos_iff_ne_zero.mp hcap)]
  dsimp only
  split
  · rename_i hwithin
    exact capped_within hwithin
  · obtain ⟨k, hk, hshortest⟩ := evict_shortest DirEntry.size (fun f => decide (resolve f.name = h.active))
      h.maxTotalBytes (total DirEntry.size (h.matching dir)) ((h.matching dir).mergeSort fun f g => decide (f.mtime ≤ g.mtime))
    have hstable : Stable DirEntry.mtime (h.removable resolve dir) _ :=
      (stable_mergeSort DirEntry.mtime (h.matching dir)).filter fun f => !decide (resolve f.name = h.active)
    refine .of hstable hk hshortest (dir.without_entries fun f hf => ?_) ?_
    · have hf : f ∈ _ := List.mem_of_mem_take (hk ▸ hf)
      have hmem : f ∈ h.removable resolve dir := hstable.perm.mem_iff.mp hf
      exact (List.mem_filter.mp (List.mem_filter.mp hmem).1).1
    · dsimp only
      split
      · rename_i hboth
        rw [if_pos hboth.2]
      · rename_i hneither
        split
        · rename_i haudit
          have hnone : ¬0 < _ := fun hpos => hneither ⟨hpos, haudit⟩
          omega
        · rfl

end Cap

def auditCap : CapHandler := ⟨"audit", 10, "audit.20260306.log"⟩

/-- An archive, the active file, a newer archive and a file of somebody else. -/
def auditListing : Listing where
  entries := [⟨"audit.20260305.log.gz", 5, 2⟩, ⟨"audit.20260306.log", 5, 3⟩, ⟨"audit.20260304.log.1.gz", 6, 1⟩, ⟨"notes", 7, 0⟩]
  nodup := by decide

theorem cleanup_exact_audit : Capped auditCap id auditListing 4 (auditCap.cleanupByTotalSize id auditListing 4) :=
  cleanup_exact (by decide) id auditListing 4

end Redgw.FileLogger
