import Mathlib.Logic.Function.Basic
import Redgw.FileLogger.Compress
import Redgw.Keys
import Redgw.Lib.Runs

/-! # The rotating file handler

A handler appends records to the file of the day. When the day changes or the file has its size, it waits
for the compressions it has submitted, shifts the backups or leaves the file of the old day, and opens a
file again. A background thread compresses what was left. The process may be killed between any two
operations on the file system. Retention and the cap on the total size are not part of this machine. -/

namespace Redgw.FileLogger

/-! ### Records -/

/-- What `logging.Formatter("%(message)s")` uses of a record. -/
structure LogRecord where
  message : String
  excText : Option String
  stackInfo : Option String
deriving DecidableEq

/-- A text that is there goes on a line of its own. -/
def onNewLine (s : String) (extra : Option String) : String :=
  match extra.filter (· ≠ "") with
  | none => s
  | some e => if s.toList.getLast? = some '\n' then s ++ e else s ++ "\n" ++ e

def LogRecord.format (r : LogRecord) : String := onNewLine (onNewLine r.message r.excText) r.stackInfo

/-- `len(msg.encode("utf-8")) + 1`, which is also what is written, the newline included. -/
def LogRecord.bytes (r : LogRecord) : Nat := (utf8 r.format).length + 1

/-! ### States -/

variable {ρ : Type}

structure Config where
  maxBytes : Nat
  backupCount : Nat
  compress : Bool

/-- The name of a log file without `.gz`: the file of a day, or a backup of it with an index from 1 on. -/
structure Name where
  date : Nat
  index : Nat
deriving DecidableEq

abbrev Directory (ρ : Type) := Name → Slot ρ

/-- The operations of a rotation, in the order of the source. -/
inductive Op
  | unlinkGz (i : Nat)
  | unlinkPlain (i : Nat)
  | shift (i : Nat)
  | retire
  | switch (today : Nat)
  | openFile
deriving DecidableEq

/-- Between two records; waiting for the compressions with a record in hand; or with these operations to go. -/
inductive Phase (ρ : Type)
  | idle
  | waiting (record : ρ)
  | rolling (record : ρ) (ops : List Op)
deriving DecidableEq

structure Job (ρ : Type) where
  name : Name
  stage : Stage ρ

/-- `written` are the records with the date of the file they were written to, and `discarded` the files that
    were removed at the last index, both in order. -/
structure State (ρ : Type) where
  dir : Directory ρ
  date : Nat
  currentBytes : Nat
  phase : Phase ρ
  jobs : List (Job ρ)
  written : List (Nat × ρ)
  discarded : List (Nat × List ρ)

def State.slot (s : State ρ) (i : Nat) : Slot ρ := s.dir ⟨s.date, i⟩

def State.setSlot (s : State ρ) (i : Nat) (slot : Slot ρ) : State ρ :=
  { s with dir := Function.update s.dir ⟨s.date, i⟩ slot }

section SetSlot
variable (s : State ρ) (i : Nat) (slot : Slot ρ)

@[simp] theorem State.setSlot_date : (s.setSlot i slot).date = s.date := rfl
@[simp] theorem State.setSlot_currentBytes : (s.setSlot i slot).currentBytes = s.currentBytes := rfl
@[simp] theorem State.setSlot_phase : (s.setSlot i slot).phase = s.phase := rfl
@[simp] theorem State.setSlot_jobs : (s.setSlot i slot).jobs = s.jobs := rfl
@[simp] theorem State.setSlot_written : (s.setSlot i slot).written = s.written := rfl
@[simp] theorem State.setSlot_discarded : (s.setSlot i slot).discarded = s.discarded := rfl

@[simp] theorem State.slot_setSlot : (s.setSlot i slot).slot i = slot := Function.update_self ..

theorem State.slot_setSlot_of_ne {j : Nat} (h : j ≠ i) : (s.setSlot i slot).slot j = s.slot j :=
  Function.update_of_ne (fun he => h (congrArg Name.index he)) ..

theorem State.dir_setSlot_of_ne {name : Name} (h : name ≠ ⟨s.date, i⟩) : (s.setSlot i slot).dir name = s.dir name :=
  Function.update_of_ne h ..

end SetSlot

/-- `_log_path` opened for appending: it is there then. -/
def State.touch (s : State ρ) : State ρ :=
  s.setSlot 0 { s.slot 0 with plain := some (s.slot 0).plainData }

theorem State.slot_touch (s : State ρ) : s.touch.slot 0 = ⟨some (s.slot 0).plainData, (s.slot 0).archive⟩ :=
  Function.update_self ..

def fileBytes (bytes : ρ → Nat) (content : List ρ) : Nat := content.foldr (fun r n => bytes r + n) 0

/-- The size of the active file. -/
def State.activeBytes (bytes : ρ → Nat) (s : State ρ) : Nat := fileBytes bytes (s.slot 0).plainData

/-- `DailySizeRotatingHandler.__init__` on what is in the directory. -/
def State.start (bytes : ρ → Nat) (dir : Directory ρ) (today : Nat) (written : List (Nat × ρ))
    (discarded : List (Nat × List ρ)) : State ρ :=
  let s : State ρ := State.touch ⟨dir, today, 0, .idle, [], written, discarded⟩
  { s with currentBytes := s.activeBytes bytes }

/-! ### Rotation -/

section Machine
variable (cfg : Config) (bytes : ρ → Nat)

/-- The counter that stands for no rollover; `none` for one. -/
def shouldRollover (s : State ρ) (record : ρ) (today : Nat) : Option Nat :=
  if today ≠ s.date then none
  else if 0 < cfg.maxBytes then
    if cfg.maxBytes ≤ s.currentBytes + bytes record then none else some (s.currentBytes + bytes record)
  else some s.currentBytes

/-- `.i` to `.(i+1)` for all `i` from `n` down to 1. -/
def shifts : Nat → List Op
  | 0 => []
  | n + 1 => .shift (n + 1) :: shifts n

/-- `_shift_backups` -/
def shiftBackups : List Op :=
  match cfg.backupCount with
  | 0 => [.retire]
  | n + 1 => .unlinkGz (n + 1) :: .unlinkPlain (n + 1) :: shifts n ++ [.retire]

/-- What `doRollover` does once the compressions are done. -/
def rolloverOps (s : State ρ) (today : Nat) : List Op :=
  (if today ≠ s.date then [.switch today] else shiftBackups cfg) ++ [.openFile]

/-- `_compress_file_async` -/
def State.submit (s : State ρ) (i : Nat) : State ρ :=
  if cfg.compress then { s with jobs := s.jobs ++ [⟨⟨s.date, i⟩, .start⟩] } else s

section Submit
variable (s : State ρ) (i : Nat)

theorem State.submit_eq : s.submit cfg i =
    { s with jobs := s.jobs ++ if cfg.compress then [⟨⟨s.date, i⟩, .start⟩] else [] } := by
  unfold State.submit
  cases cfg.compress <;> simp

@[simp] theorem State.submit_dir : (s.submit cfg i).dir = s.dir := by rw [submit_eq]
@[simp] theorem State.submit_date : (s.submit cfg i).date = s.date := by rw [submit_eq]
@[simp] theorem State.submit_written : (s.submit cfg i).written = s.written := by rw [submit_eq]
@[simp] theorem State.submit_discarded : (s.submit cfg i).discarded = s.discarded := by rw [submit_eq]

end Submit

def Op.apply (s : State ρ) : Op → State ρ
  | .unlinkGz i =>
    let t := s.setSlot i { s.slot i with archive := none }
    match (s.slot i).archive with
    | some ⟨data, true⟩ => { t with discarded := s.discarded ++ [(s.date, data)] }
    | _ => t
  | .unlinkPlain i =>
    let t := s.setSlot i { s.slot i with plain := none }
    match (s.slot i).plain with
    | some content => { t with discarded := s.discarded ++ [(s.date, content)] }
    | none => t
  | .shift i =>
    match (s.slot i).archive, (s.slot i).plain with
    | some a, _ =>
      (s.setSlot i { s.slot i with archive := none }).setSlot (i + 1) { s.slot (i + 1) with archive := some a }
    | none, some c =>
      (s.setSlot i { s.slot i with plain := none }).setSlot (i + 1) { s.slot (i + 1) with plain := some c }
    | none, none => s
  | .retire =>
    match (s.slot 0).plain with
    | some c =>
      ((s.setSlot 0 { s.slot 0 with plain := none }).setSlot 1 { s.slot 1 with plain := some c }).submit cfg 1
    | none => s
  | .switch today => { (if (s.slot 0).plain.isSome then s.submit cfg 0 else s) with date := today }
  | .openFile => { s.touch with currentBytes := 0 }

/-- The record goes to the end of the active file. -/
def State.write (s : State ρ) (record : ρ) : State ρ :=
  { s.setSlot 0 { s.slot 0 with plain := some ((s.slot 0).plainData ++ [record]) } with
    phase := .idle
    written := s.written ++ [(s.date, record)] }

theorem State.slot_write (s : State ρ) (record : ρ) :
    (s.write record).slot 0 = ⟨some ((s.slot 0).plainData ++ [record]), (s.slot 0).archive⟩ :=
  Function.update_self ..

/-- The gzip thread makes the next operation of the oldest job. -/
def gzip (s : State ρ) (ok : Bool) : Option (State ρ) :=
  match s.jobs with
  | [] => none
  | job :: jobs =>
    let next := job.stage.step (s.dir job.name) ok
    some { s with
      dir := Function.update s.dir job.name next.1
      jobs := (next.2.map (Job.mk job.name)).toList ++ jobs }

inductive Action (ρ : Type)
  | emit (record : ρ) (today : Nat)
  | rollover (today : Nat)
  | operate
  | write
  | gzip (ok : Bool)
  | kill (today : Nat)
deriving DecidableEq

/-- One step of the handler, of the gzip thread, or of whoever kills the process and starts it again. -/
def step (s : State ρ) : Action ρ → Option (State ρ)
  | .emit record today =>
    match s.phase, shouldRollover cfg bytes s record today with
    | .idle, some counter => some (({ s with currentBytes := counter } : State ρ).write record)
    | .idle, none => some { s with phase := .waiting record }
    | _, _ => none
  -- `_wait_pending_compressions` returns when there are none.
  | .rollover today =>
    match s.phase, s.jobs with
    | .waiting record, [] => some { s with phase := .rolling record (rolloverOps cfg s today) }
    | _, _ => none
  | .operate =>
    match s.phase with
    | .rolling record (op :: ops) => some { op.apply cfg s with phase := .rolling record ops }
    | _ => none
  | .write =>
    match s.phase with
    | .rolling record [] => some (s.write record)
    | _ => none
  | .gzip ok => gzip s ok
  | .kill today => some (.start bytes s.dir today s.written s.discarded)

abbrev run (s : State ρ) (as : List (Action ρ)) : Option (State ρ) := Runs.run (step cfg bytes) s as

end Machine

/-! ### What each step can do -/

section Steps
variable {cfg : Config} {bytes : ρ → Nat} {s t : State ρ}

theorem step_emit {record : ρ} {today : Nat} (h : step cfg bytes s (.emit record today) = some t) :
    s.phase = .idle ∧
      ((∃ counter, shouldRollover cfg bytes s record today = some counter ∧
        t = ({ s with currentBytes := counter } : State ρ).write record) ∨
      shouldRollover cfg bytes s record today = none ∧ t = { s with phase := .waiting record }) := by
  simp only [step] at h
  split at h
  · rename_i counter hidle hnone
    exact ⟨hidle, Or.inl ⟨counter, hnone, (Option.some.inj h).symm⟩⟩
  · rename_i hidle hnone
    exact ⟨hidle, Or.inr ⟨hnone, (Option.some.inj h).symm⟩⟩
  · cases h

theorem step_rollover {today : Nat} (h : step cfg bytes s (.rollover today) = some t) :
    s.jobs = [] ∧ ∃ record, s.phase = .waiting record ∧
      t = { s with phase := .rolling record (rolloverOps cfg s today) } := by
  simp only [step] at h
  split at h
  · rename_i record hwaiting hjobs
    exact ⟨hjobs, record, hwaiting, (Option.some.inj h).symm⟩
  · cases h

theorem step_operate (h : step cfg bytes s .operate = some t) :
    ∃ record op ops, s.phase = .rolling record (op :: ops) ∧ t = { op.apply cfg s with phase := .rolling record ops } := by
  simp only [step] at h
  split at h
  · rename_i record op ops hrolling
    exact ⟨record, op, ops, hrolling, (Option.some.inj h).symm⟩
  · cases h

theorem step_write (h : step cfg bytes s .write = some t) : ∃ record, s.phase = .rolling record [] ∧ t = s.write record := by
  simp only [step] at h
  split at h
  · rename_i record hrolling
    exact ⟨record, hrolling, (Option.some.inj h).symm⟩
  · cases h

theorem step_gzip {ok : Bool} (h : step cfg bytes s (.gzip ok) = some t) :
    ∃ job jobs, s.jobs = job :: jobs ∧
      t = { s with
        dir := Function.update s.dir job.name (job.stage.step (s.dir job.name) ok).1
        jobs := ((job.stage.step (s.dir job.name) ok).2.map (Job.mk job.name)).toList ++ jobs } := by
  simp only [step, gzip] at h
  split at h
  · cases h
  · rename_i job jobs hjobs
    exact ⟨job, jobs, hjobs, (Option.some.inj h).symm⟩

end Steps

end Redgw.FileLogger
