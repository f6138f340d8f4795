import Mathlib.Algebra.Order.Ring.Rat
import Redgw.FileLogger.Cleanup
import Redgw.Lib.Evict
import Redgw.Routers.Event

/-! # The cap on a log directory

`_cleanup_by_total_size` on a directory with any files in it, for a handler with any prefix. -/

namespace Redgw.FileLogger

/-- A file as `iterdir` and `stat` show it. -/
structure DirEntry where
  name : String
  size : Nat
  mtime : Rat
deriving DecidableEq

/-- What `iterdir` lists, in its order. -/
structure Listing where
  entries : List DirEntry
  nodup : (entries.map (·.name)).Nodup

/-- What the clean-up reads of its handler. `active` is `Path(self.baseFilename).resolve()`. -/
structure CapHandler where
  filePrefix : String
  maxTotalBytes : Nat
  active : String

/-- `(?:\.\d+)?(?:\.gz)?$`, for all decimal digits. -/
def backupEnd : List Char → Bool
  | '.' :: s => gzEnd ('.' :: s) || (!(s.takeWhile decimalDigit).isEmpty && gzEnd (s.dropWhile decimalDigit))
  | s => gzEnd s

/-- `_archive_re.match` with `^{prefix}\.\d{8}\.log(?:\.\d+)?(?:\.gz)?$` -/
def CapHandler.archiveRe (h : CapHandler) (name : String) : Bool :=
  match afterPrefix (h.filePrefix ++ ".") name.toList with
  | none => false
  | some rest =>
    decide ((rest.take 8).length = 8) && (rest.take 8).all decimalDigit &&
      match afterPrefix ".log" (rest.drop 8) with
      | none => false
      | some tail => backupEnd tail

/-- The files that are unlinked, what is left, and the counter of what was dropped. -/
structure Cleaned where
  unlinked : List DirEntry
  listing : Listing
  droppedDiskFull : Nat

def Listing.without (dir : Listing) (unlinked : List DirEntry) : Listing where
  entries := dir.entries.filter fun f => !decide (f.name ∈ unlinked.map (·.name))
  nodup := dir.nodup.sublist (List.filter_sublist.map _)

/-- `_cleanup_by_total_size`. `resolve` is `Path.resolve` on the files of the directory. -/
def CapHandler.cleanupByTotalSize (h : CapHandler) (resolve : String → String) (dir : Listing) (droppedDiskFull : Nat) :
    Cleaned :=
  if h.maxTotalBytes = 0 then ⟨[], dir, droppedDiskFull⟩
  else
    let entries := dir.entries.filter fun f => h.archiveRe f.name
    let total := Evict.total DirEntry.size entries
    if total ≤ h.maxTotalBytes then ⟨[], dir, droppedDiskFull⟩
    else
      let sorted := entries.mergeSort fun f g => decide (f.mtime ≤ g.mtime)
      let unlinked := Evict.evict DirEntry.size (fun f => decide (resolve f.name = h.active)) h.maxTotalBytes total sorted
      ⟨unlinked, dir.without unlinked,
        if 0 < unlinked.length ∧ "audit".toList.isPrefixOf h.filePrefix.toList then droppedDiskFull + unlinked.length
        else droppedDiskFull⟩

end Redgw.FileLogger
