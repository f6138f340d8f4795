import Redgw.Audit.Middleware
import Redgw.Lib.Text

/-! # Cleaning up the audit directory

When the audit log is started, its handler opens the file of the day, removes the files that are too old,
and then the oldest ones while all of them are too large together. Both passes take the files whose names
match a pattern that is made of the prefix of this handler. -/

namespace Redgw.FileLogger

/-! ### Names -/

/-- `audit`, or `audit.w{pid}` with `per_worker_files`. -/
inductive Stem
  | shared
  | worker (pid : Nat)
deriving DecidableEq

def Stem.text : Stem → String
  | .shared => "audit"
  | .worker pid => "audit.w" ++ toString pid

/-- Eight digits, `%Y%m%d`. Days are compared as texts. -/
structure Day where
  chars : List Char
  length : chars.length = 8
  digits : chars.all Char.isDigit = true
deriving DecidableEq

/-- The name of a log file: of a day or a backup with an index, plain or compressed. -/
structure LogName where
  stem : Stem
  day : Day
  index : Option Nat
  gz : Bool
deriving DecidableEq

def indexText : Option Nat → String
  | none => ""
  | some i => "." ++ toString i

def gzText (gz : Bool) : String := if gz then ".gz" else ""

/-- `{prefix}.{date}.log`, with the index and `.gz` behind it. -/
def LogName.text (n : LogName) : String :=
  n.stem.text ++ "." ++ String.ofList n.day.chars ++ ".log" ++ indexText n.index ++ gzText n.gz

/-! ### Patterns -/

/-- `^{prefix}\.(\d{8})\.log`: the day, and what follows. The names that the program writes have ASCII digits
    only. -/
def dayMatch (stem : Stem) (name : List Char) : Option (List Char × List Char) := do
  let rest ← afterPrefix (stem.text ++ ".") name
  let day := rest.take 8
  if day.length = 8 ∧ day.all Char.isDigit = true then
    let tail ← afterPrefix ".log" (rest.drop 8)
    return (day, tail)
  else none

/-- `_date_re.match`, the group. -/
def dateRe (stem : Stem) (name : List Char) : Option (List Char) := (dayMatch stem name).map (·.1)

/-- `(?:\.gz)?$`, which also matches before a newline at the end. -/
def gzEnd (s : List Char) : Bool :=
  s == [] || s == ['\n'] || s == ".gz".toList || s == ".gz\n".toList

/-- `(?:\.\d+)?(?:\.gz)?$` -/
def archiveEnd : List Char → Bool
  | '.' :: s => gzEnd ('.' :: s) || (!(s.takeWhile Char.isDigit).isEmpty && gzEnd (s.dropWhile Char.isDigit))
  | s => gzEnd s

/-- `_archive_re.match` -/
def archiveRe (stem : Stem) (name : List Char) : Bool :=
  match dayMatch stem name with
  | some (_, tail) => archiveEnd tail
  | none => false

/-! ### The directory -/

structure File where
  name : LogName
  size : Nat
  mtime : Nat
deriving DecidableEq

/-- What `iterdir` lists. No two files have one name. -/
structure LogDir where
  files : List File
  nodup : (files.map (·.name)).Nodup

def LogDir.only (dir : LogDir) (keep : File → Bool) : LogDir where
  files := dir.files.filter keep
  nodup := dir.nodup.sublist (List.filter_sublist.map _)

/-- A file that is opened for appending is there then. -/
def LogDir.open (dir : LogDir) (name : LogName) (now : Nat) : LogDir :=
  if h : name ∈ dir.files.map (·.name) then dir
  else ⟨dir.files ++ [⟨name, 0, now⟩], by
    rw [List.map_append, List.nodup_append_comm]
    exact List.nodup_cons.mpr ⟨h, dir.nodup⟩⟩

def totalSize (files : List File) : Nat := files.foldr (fun f n => f.size + n) 0

/-- `cleanup_old_files` -/
def cleanupOldFiles (stem : Stem) (cutoff : Day) (dir : LogDir) : LogDir :=
  dir.only fun f => match dateRe stem f.name.text.toList with
    | some day => !decide (day < cutoff.chars)
    | none => true

/-- The loop over the files from the oldest on: the files that are removed. -/
def purge (cap : Nat) (active : LogName) : Nat → List File → List File
  | _, [] => []
  | total, f :: files =>
    if total ≤ cap then []
    else if f.name = active then purge cap active total files
    else f :: purge cap active (total - f.size) files

/-- `_cleanup_by_total_size` -/
def cleanupByTotalSize (stem : Stem) (cap : Nat) (active : LogName) (dir : LogDir) : LogDir :=
  if cap = 0 then dir
  else
    let entries := dir.files.filter fun f => archiveRe stem f.name.text.toList
    let total := totalSize entries
    if total ≤ cap then dir
    else
      let removed := purge cap active total (entries.mergeSort fun f g => decide (f.mtime ≤ g.mtime))
      dir.only fun f => !decide (f.name ∈ removed.map (·.name))

/-- What the directory depends on in `AuditConfig`. -/
structure DirConfig where
  level : Nat
  perWorkerFiles : Bool
  maxTotalSizeMb : Nat

/-- What the process is, and what its clock says: the day, the day before which files are too old, and the
    time. -/
structure Startup where
  pid : Nat
  today : Day
  cutoff : Day
  now : Nat

def stemOf (config : DirConfig) (pid : Nat) : Stem := if config.perWorkerFiles then .worker pid else .shared

def activeName (config : DirConfig) (p : Startup) : LogName := ⟨stemOf config p.pid, p.today, none, false⟩

/-- `init_audit_logger`, as far as the directory is concerned. -/
def initAuditLogger (config : DirConfig) (p : Startup) (dir : LogDir) : LogDir :=
  if config.level = 0 then dir
  else
    let stem := stemOf config p.pid
    let opened := dir.open (activeName config p) p.now
    cleanupByTotalSize stem (config.maxTotalSizeMb * 1024 * 1024) (activeName config p)
      (cleanupOldFiles stem p.cutoff opened)

end Redgw.FileLogger
