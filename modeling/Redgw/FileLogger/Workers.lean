import Redgw.FileLogger.Handler
import Redgw.Lib.Inodes

/-! # Several workers on one directory

Every worker process has a handler of its own and a gzip thread of its own, and by default all of them use one
directory and one prefix. Each operation on the file system is one step, and between two of them any other
worker may move: names are looked up again at each operation, while an open stream goes on with its inode.

Which files retention and the cap on the total size take is the subject of other modules. Here retention takes
any files of days before the cutoff, and the cap any but the active file of the worker. -/

namespace Redgw.FileLogger.Workers

variable {ρ : Type}

/-! ### Files -/

/-- What a gzip thread writes at an offset: a piece of the stream of the records that it has read up to there. -/
abbrev Piece (ρ : Type) := Option (List ρ)

/-- A write at an offset. What another process has cut off before it reads as zeros. -/
def putAt (pieces : List (Piece ρ)) (k : Nat) (p : Piece ρ) : List (Piece ρ) :=
  if k < pieces.length then pieces.set k p else pieces ++ List.replicate (k - pieces.length) none ++ [p]

/-- The stream of these records, piece by piece. -/
def stream (records : List ρ) : List (Piece ρ) := (List.range records.length).map fun k => some (records.take (k + 1))

/-- An archive can be read up to this record: its pieces up to there are those of one stream. -/
def Unpacks (pieces : List (Piece ρ)) (r : ρ) : Prop := ∃ records, stream records <+: pieces ∧ r ∈ records

/-- The file of a name, or the one with `.gz`, as it was when it was removed. -/
inductive File (ρ : Type)
  | log (records : List ρ)
  | archive (pieces : List (Piece ρ))
deriving DecidableEq

def File.Has (r : ρ) : File ρ → Prop
  | .log records => r ∈ records
  | .archive pieces => Unpacks pieces r

/-- The files of the directory, and those that the limit on the backups, retention and the cap on the total size
    have removed. -/
structure Files (ρ : Type) where
  logs : Inodes Name (List ρ)
  archives : Inodes Name (List (Piece ρ))
  removed : List (File ρ)

namespace Files
variable (f : Files ρ) (name other : Name)

/-- The file of a name is removed for a limit, if there is one. -/
def removeLog : Files ρ :=
  { f with logs := f.logs.unlink name, removed := f.removed ++ ((f.logs.read name).map File.log).toList }

def removeArchive : Files ρ :=
  { f with archives := f.archives.unlink name, removed := f.removed ++ ((f.archives.read name).map File.archive).toList }

/-- `none`: there is no such file. -/
def renameLog : Option (Files ρ) := (f.logs.rename name other).map fun l => { f with logs := l }

def renameArchive : Option (Files ρ) := (f.archives.rename name other).map fun a => { f with archives := a }

/-- The inode of the file that is opened for appending. -/
def openLog : Nat × Files ρ :=
  let (i, l) := f.logs.openAt name []
  (i, { f with logs := l })

end Files

/-! ### Handlers -/

structure Policy extends Config where
  retentionDays : Nat
  maxTotalBytes : Nat

/-- The operations of `__init__` and `doRollover`, in the order of the source. The day is the one that the handler
    has when the operation is made. -/
inductive Op
  | measure
  | unlinkGz (i : Nat)
  | unlinkPlain (i : Nat)
  -- `exists`, and what is done then
  | probeGz (i : Nat)
  | probePlain (i : Nat)
  | renameGz (i : Nat)
  | renamePlain (i : Nat)
  | probeBase
  | retire
  | switch (today : Nat)
  | cleanupOldFiles
  | openFile
  | cleanupByTotalSize
  -- `FileHandler.emit` after a rollover that raised
  | reopen
deriving DecidableEq

/-- Between two records; waiting for the compressions with a record in hand; or with these operations to go, and
    with a record in hand unless it is `__init__`. -/
inductive Phase (ρ : Type)
  | idle
  | waiting (record : ρ)
  | rolling (record : Option ρ) (ops : List Op)
deriving DecidableEq

/-- The inodes of a copy, and how many records have been copied. -/
structure Copy where
  source : Nat
  archive : Nat
  copied : Nat
deriving DecidableEq

/-- The next operation of `_compress_file`: to open the file, to open the archive, to copy on, to remove the file, or
    to remove the archive. -/
inductive Stage
  | start
  | opened (source : Nat)
  | copying (c : Copy)
  | copied (c : Copy)
  | failed (c : Option Copy)
deriving DecidableEq

/-- `jobs` are the files that are submitted to the gzip thread and not yet begun. -/
structure Handler (ρ : Type) where
  date : Nat
  currentBytes : Nat
  stream : Option Nat
  phase : Phase ρ
  jobs : List Name
  running : Option (Name × Stage)
deriving DecidableEq

/-- `written` are the records whose `emit` has completed. -/
structure State (ρ : Type) where
  files : Files ρ
  handlers : Nat → Option (Handler ρ)
  written : List ρ

section Machine
variable (cfg : Policy) (bytes : ρ → Nat)

/-! ### Operations of a handler -/

/-- The counter that stands for no rollover; `none` for one. -/
def Handler.shouldRollover (h : Handler ρ) (record : ρ) (today : Nat) : Option Nat :=
  if today ≠ h.date then none
  else if 0 < cfg.maxBytes then
    if cfg.maxBytes ≤ h.currentBytes + bytes record then none else some (h.currentBytes + bytes record)
  else some h.currentBytes

/-- `.i` to `.(i+1)` for all `i` from `n` down to 1. -/
def probes : Nat → List Op
  | 0 => []
  | n + 1 => .probeGz (n + 1) :: probes n

/-- `_shift_backups` -/
def shiftBackups : List Op :=
  match cfg.backupCount with
  | 0 => [.probeBase]
  | n + 1 => .unlinkGz (n + 1) :: .unlinkPlain (n + 1) :: probes n ++ [.probeBase]

/-- What `doRollover` does once the compressions are done. -/
def rolloverOps (date today : Nat) : List Op :=
  (if today ≠ date then [.switch today, .cleanupOldFiles] else shiftBackups cfg) ++ [.openFile, .cleanupByTotalSize]

/-- `_compress_file_async` -/
def Handler.submit (h : Handler ρ) (name : Name) : Handler ρ :=
  if cfg.compress then { h with jobs := h.jobs ++ [name] } else h

/-- What an operation does to the files and the handler, and the operations that it adds. `none`: it raises, since
    the file that it renames is gone. -/
def Op.apply (f : Files ρ) (h : Handler ρ) : Op → Option (Files ρ × Handler ρ × List Op)
  | .measure => some (f, { h with currentBytes := fileBytes bytes ((f.logs.read ⟨h.date, 0⟩).getD []) }, [])
  | .unlinkGz i => some (f.removeArchive ⟨h.date, i⟩, h, [])
  | .unlinkPlain i => some (f.removeLog ⟨h.date, i⟩, h, [])
  | .probeGz i => some (f, h, [if (f.archives.find ⟨h.date, i⟩).isSome then .renameGz i else .probePlain i])
  | .probePlain i => some (f, h, if (f.logs.find ⟨h.date, i⟩).isSome then [.renamePlain i] else [])
  | .renameGz i => (f.renameArchive ⟨h.date, i⟩ ⟨h.date, i + 1⟩).map fun g => (g, h, [])
  | .renamePlain i => (f.renameLog ⟨h.date, i⟩ ⟨h.date, i + 1⟩).map fun g => (g, h, [])
  | .probeBase => some (f, h, if (f.logs.find ⟨h.date, 0⟩).isSome then [.retire] else [])
  | .retire => (f.renameLog ⟨h.date, 0⟩ ⟨h.date, 1⟩).map fun g => (g, h.submit cfg ⟨h.date, 1⟩, [])
  | .switch today =>
    let left := if (f.logs.find ⟨h.date, 0⟩).isSome then h.submit cfg ⟨h.date, 0⟩ else h
    some (f, { left with date := today }, [])
  -- The loops of these two are over; what they remove are steps of their own.
  | .cleanupOldFiles | .cleanupByTotalSize => some (f, h, [])
  | .openFile => some ((f.openLog ⟨h.date, 0⟩).2, { h with stream := some (f.openLog ⟨h.date, 0⟩).1, currentBytes := 0 }, [])
  | .reopen => some ((f.openLog ⟨h.date, 0⟩).2, { h with stream := some (f.openLog ⟨h.date, 0⟩).1 }, [])

/-! ### Operations of a gzip thread -/

/-- One operation of `_compress_file`, which succeeds or fails. After the last there is no next one. -/
def Stage.step (f : Files ρ) (name : Name) (ok : Bool) : Stage → Files ρ × Option Stage
  | .start =>
    match f.logs.find name, ok with
    | some i, true => (f, some (.opened i))
    | _, _ => (f, some (.failed none))
  | .opened source =>
    -- `gzip.open(.., "wb")` truncates what is there.
    if ok then
      let (a, archives) := f.archives.openAt name []
      ({ f with archives := archives.write a [] }, some (.copying ⟨source, a, 0⟩))
    else (f, some (.failed none))
  | .copying c =>
    let records := f.logs.content c.source
    if ok then
      if c.copied < records.length then
        let pieces := putAt (f.archives.content c.archive) c.copied (some (records.take (c.copied + 1)))
        ({ f with archives := f.archives.write c.archive pieces }, some (.copying { c with copied := c.copied + 1 }))
      else (f, some (.copied c))
    else (f, some (.failed (some c)))
  | .copied _ => (if ok then { f with logs := f.logs.unlink name } else f, none)
  -- `gz_path.unlink(missing_ok=True)`
  | .failed _ => (if ok then { f with archives := f.archives.unlink name } else f, none)

/-! ### Steps -/

inductive Action (ρ : Type)
  | start (w today : Nat)
  | emit (w : Nat) (record : ρ) (today : Nat)
  | rollover (w today : Nat)
  | operate (w : Nat)
  -- a file that `cleanup_old_files` or `_cleanup_by_total_size` removes
  | retain (w : Nat) (name : Name) (gz : Bool) (today : Nat)
  | evict (w : Nat) (name : Name) (gz : Bool)
  | write (w : Nat)
  | gzip (w : Nat) (ok : Bool)
deriving DecidableEq

namespace State
variable (s : State ρ) (w : Nat) (h : Handler ρ)

def setHandler : State ρ := { s with handlers := Function.update s.handlers w (some h) }

/-- The record goes to the inode of the stream. -/
def append (i : Nat) (record : ρ) : State ρ :=
  { s with
    files := { s.files with logs := s.files.logs.write i (s.files.logs.content i ++ [record]) }
    written := s.written ++ [record] }

/-- `BaseRotatingHandler.emit`, up to the first operation on a file. -/
def emit (record : ρ) (today : Nat) : State ρ :=
  match h.shouldRollover cfg bytes record today, h.stream with
  | none, _ => s.setHandler w { h with phase := .waiting record }
  | some counter, some i => (s.setHandler w { h with currentBytes := counter }).append i record
  | some counter, none => s.setHandler w { h with currentBytes := counter, phase := .rolling (some record) [.reopen] }

def operate (record : Option ρ) (op : Op) (ops : List Op) : State ρ :=
  match op.apply cfg bytes s.files h with
  -- `logging.Handler.handleError`: the record is not written.
  | none => s.setHandler w { h with phase := .idle }
  | some (files, h', more) => { s.setHandler w { h' with phase := .rolling record (more ++ ops) } with files := files }

def remove (name : Name) (gz : Bool) : State ρ :=
  { s with files := if gz then s.files.removeArchive name else s.files.removeLog name }

/-- The gzip thread takes the next file, or makes the next operation on the one that it has. -/
def gzip (ok : Bool) : Option (State ρ) :=
  match h.running, h.jobs with
  | none, [] => none
  | none, name :: jobs => some (s.setHandler w { h with jobs := jobs, running := some (name, .start) })
  | some (name, stage), _ =>
    let next := stage.step s.files name ok
    some { s.setHandler w { h with running := next.2.map fun stage => (name, stage) } with files := next.1 }

end State

/-- One step of a worker. -/
def step (s : State ρ) : Action ρ → Option (State ρ)
  | .start w today =>
    match s.handlers w with
    | some _ => none
    | none =>
      let (i, files) := s.files.openLog ⟨today, 0⟩
      let ops := [.measure, .cleanupOldFiles, .cleanupByTotalSize]
      some { s.setHandler w ⟨today, 0, some i, .rolling none ops, [], none⟩ with files := files }
  | .emit w record today => do
    let h ← s.handlers w
    match h.phase with
    | .idle => some (s.emit cfg bytes w h record today)
    | _ => none
  -- `_wait_pending_compressions` returns when there are none, and the stream is closed.
  | .rollover w today => do
    let h ← s.handlers w
    match h.phase, h.jobs, h.running with
    | .waiting record, [], none =>
      some (s.setHandler w { h with stream := none, phase := .rolling (some record) (rolloverOps cfg h.date today) })
    | _, _, _ => none
  | .operate w => do
    let h ← s.handlers w
    match h.phase with
    | .rolling record (op :: ops) => some (s.operate cfg bytes w h record op ops)
    | _ => none
  | .retain w name gz today => do
    let h ← s.handlers w
    match h.phase with
    | .rolling _ (.cleanupOldFiles :: _) => if name.date + cfg.retentionDays < today then some (s.remove name gz) else none
    | _ => none
  | .evict w name gz => do
    let h ← s.handlers w
    match h.phase with
    | .rolling _ (.cleanupByTotalSize :: _) =>
      if 0 < cfg.maxTotalBytes ∧ (gz ∨ name ≠ ⟨h.date, 0⟩) then some (s.remove name gz) else none
    | _ => none
  | .write w => do
    let h ← s.handlers w
    match h.phase, h.stream with
    | .rolling (some record) [], some i => some ((s.setHandler w { h with phase := .idle }).append i record)
    | .rolling none [], _ => some (s.setHandler w { h with phase := .idle })
    | _, _ => none
  | .gzip w ok => do
    let h ← s.handlers w
    s.gzip w h ok

abbrev run (s : State ρ) (as : List (Action ρ)) : Option (State ρ) := Runs.run (step cfg bytes) s as

end Machine

/-! ### What each step can do -/

section Steps
variable {cfg : Policy} {bytes : ρ → Nat} {s t : State ρ} {w : Nat}

theorem step_start {today : Nat} (h : step cfg bytes s (.start w today) = some t) :
    s.handlers w = none ∧ ∃ hd : Handler ρ, hd.running = none ∧
      t = { s.setHandler w hd with files := (s.files.openLog ⟨today, 0⟩).2 } := by
  simp only [step] at h
  split at h
  · cases h
  · rename_i hnone
    exact ⟨hnone, _, rfl, (Option.some.inj h).symm⟩

theorem step_emit {record : ρ} {today : Nat} (h : step cfg bytes s (.emit w record today) = some t) :
    ∃ hd, s.handlers w = some hd ∧ hd.phase = .idle ∧ t = s.emit cfg bytes w hd record today := by
  simp only [step, Option.bind_eq_bind, Option.bind_eq_some_iff] at h
  obtain ⟨hd, hw, h⟩ := h
  split at h
  · rename_i hidle
    exact ⟨hd, hw, hidle, (Option.some.inj h).symm⟩
  · cases h

theorem step_rollover {today : Nat} (h : step cfg bytes s (.rollover w today) = some t) :
    ∃ hd record, s.handlers w = some hd ∧ hd.phase = .waiting record ∧ hd.jobs = [] ∧ hd.running = none ∧
      t = s.setHandler w { hd with stream := none, phase := .rolling (some record) (rolloverOps cfg hd.date today) } := by
  simp only [step, Option.bind_eq_bind, Option.bind_eq_some_iff] at h
  obtain ⟨hd, hw, h⟩ := h
  split at h
  · rename_i record hwaiting hjobs hrunning
    exact ⟨hd, record, hw, hwaiting, hjobs, hrunning, (Option.some.inj h).symm⟩
  · cases h

theorem step_operate (h : step cfg bytes s (.operate w) = some t) :
    ∃ hd record op ops, s.handlers w = some hd ∧ hd.phase = .rolling record (op :: ops) ∧
      t = s.operate cfg bytes w hd record op ops := by
  simp only [step, Option.bind_eq_bind, Option.bind_eq_some_iff] at h
  obtain ⟨hd, hw, h⟩ := h
  split at h
  · rename_i record op ops hrolling
    exact ⟨hd, record, op, ops, hw, hrolling, (Option.some.inj h).symm⟩
  · cases h

theorem step_retain {name : Name} {gz : Bool} {today : Nat} (h : step cfg bytes s (.retain w name gz today) = some t) :
    t = s.remove name gz := by
  simp only [step, Option.bind_eq_bind, Option.bind_eq_some_iff] at h
  obtain ⟨hd, hw, h⟩ := h
  split at h
  · split at h
    · exact (Option.some.inj h).symm
    · cases h
  · cases h

theorem step_evict {name : Name} {gz : Bool} (h : step cfg bytes s (.evict w name gz) = some t) : t = s.remove name gz := by
  simp only [step, Option.bind_eq_bind, Option.bind_eq_some_iff] at h
  obtain ⟨hd, hw, h⟩ := h
  split at h
  · split at h
    · exact (Option.some.inj h).symm
    · cases h
  · cases h

theorem step_write (h : step cfg bytes s (.write w) = some t) :
    ∃ hd, s.handlers w = some hd ∧
      ((∃ record i, hd.phase = .rolling (some record) [] ∧ hd.stream = some i ∧
        t = (s.setHandler w { hd with phase := .idle }).append i record) ∨
      hd.phase = .rolling none [] ∧ t = s.setHandler w { hd with phase := .idle }) := by
  simp only [step, Option.bind_eq_bind, Option.bind_eq_some_iff] at h
  obtain ⟨hd, hw, h⟩ := h
  refine ⟨hd, hw, ?_⟩
  split at h
  · rename_i record i hrolling hstream
    exact Or.inl ⟨record, i, hrolling, hstream, (Option.some.inj h).symm⟩
  · rename_i hrolling
    exact Or.inr ⟨hrolling, (Option.some.inj h).symm⟩
  · cases h

theorem step_gzip {ok : Bool} (h : step cfg bytes s (.gzip w ok) = some t) :
    ∃ hd, s.handlers w = some hd ∧
      ((∃ name jobs, hd.running = none ∧ hd.jobs = name :: jobs ∧
        t = s.setHandler w { hd with jobs := jobs, running := some (name, .start) }) ∨
      ∃ name stage, hd.running = some (name, stage) ∧
        t = { s.setHandler w { hd with running := (stage.step s.files name ok).2.map fun stage => (name, stage) } with
              files := (stage.step s.files name ok).1 }) := by
  simp only [step, Option.bind_eq_bind, Option.bind_eq_some_iff] at h
  obtain ⟨hd, hw, h⟩ := h
  refine ⟨hd, hw, ?_⟩
  unfold State.gzip at h
  split at h
  · cases h
  · rename_i name jobs hrunning hjobs
    exact Or.inl ⟨name, jobs, hrunning, hjobs, (Option.some.inj h).symm⟩
  · rename_i _ name stage hrunning
    exact Or.inr ⟨name, stage, hrunning, (Option.some.inj h).symm⟩

end Steps

end Redgw.FileLogger.Workers
