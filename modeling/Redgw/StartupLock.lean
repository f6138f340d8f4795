import Redgw.Lib.Runs

/-! # The startup lock

Of the workers that start together one writes the startup log: the one that locks a file. They agree on the
path of the file, and `flock` excludes the holders of one inode. -/

namespace Redgw.StartupLock

/-- Where a worker is in `acquire_startup_lock` and `release_startup_lock`, with the inode that it has opened. -/
inductive Phase
  | idle
  | opened (inode : Nat)
  | locked (inode : Nat)
  | refused (inode : Nat)
  | acquired (inode : Nat)
  | unlocked (inode : Nat)
  | closed
  | unlinked
deriving DecidableEq

structure Worker where
  phase : Phase
  isStartupLogger : Bool
deriving DecidableEq

/-- The inode that the path names, how many inodes have been made, who has locked each, and the workers. -/
structure State (ω : Type) where
  path : Option Nat
  inodes : Nat
  holder : Nat → Option ω
  workers : ω → Worker

variable {ω : Type} [DecidableEq ω]

def State.init (ω : Type) : State ω where
  path := none
  inodes := 0
  holder _ := none
  workers _ := ⟨.idle, false⟩

inductive Action (ω : Type)
  | openFile (w : ω)
  | openFails (w : ω)
  | flock (w : ω)
  | write (w : ω)
  | writeFails (w : ω)
  | close (w : ω)
  | unlock (w : ω)
  | closeUnlocked (w : ω)
  | unlink (w : ω)
  | clear (w : ω)
deriving DecidableEq

namespace State
variable (s : State ω)

def setWorker (w : ω) (phase : Phase) (isStartupLogger : Bool) : State ω :=
  { s with workers := fun v => if v = w then ⟨phase, isStartupLogger⟩ else s.workers v }

def setPhase (w : ω) (phase : Phase) : State ω := s.setWorker w phase (s.workers w).isStartupLogger

def setHolder (inode : Nat) (holder : Option ω) : State ω :=
  { s with holder := fun i => if i = inode then holder else s.holder i }

/-- The lock of the inode is given up if the worker has it. -/
def letGo (w : ω) (inode : Nat) : State ω := if s.holder inode = some w then s.setHolder inode none else s

end State

/-- One step of a worker. -/
def step (s : State ω) : Action ω → Option (State ω)
  -- `open(lock_path, "w")`
  | .openFile w =>
    match (s.workers w).phase, s.path with
    | .idle, some inode => some (s.setPhase w (.opened inode))
    | .idle, none => some ({ s with path := some s.inodes, inodes := s.inodes + 1 }.setPhase w (.opened s.inodes))
    | _, _ => none
  | .openFails w =>
    match (s.workers w).phase with
    | .idle => some (s.setWorker w .idle false)
    | _ => none
  -- `LOCK_EX | LOCK_NB`
  | .flock w =>
    match (s.workers w).phase with
    | .opened inode =>
      if s.holder inode = none then some ((s.setHolder inode (some w)).setPhase w (.locked inode))
      else some (s.setPhase w (.refused inode))
    | _ => none
  | .write w =>
    match (s.workers w).phase with
    | .locked inode => some (s.setWorker w (.acquired inode) true)
    | _ => none
  | .writeFails w =>
    match (s.workers w).phase with
    | .locked inode => some (s.setPhase w (.refused inode))
    | _ => none
  -- The handler of `OSError`: closing gives up the lock.
  | .close w =>
    match (s.workers w).phase with
    | .refused inode => some ((s.letGo w inode).setWorker w .idle false)
    | _ => none
  -- `release_startup_lock`
  | .unlock w =>
    match (s.workers w).phase with
    | .acquired inode => some ((s.letGo w inode).setPhase w (.unlocked inode))
    | _ => none
  | .closeUnlocked w =>
    match (s.workers w).phase with
    | .unlocked _ => some (s.setPhase w .closed)
    | _ => none
  | .unlink w =>
    match (s.workers w).phase with
    | .closed => some ({ s with path := none }.setPhase w .unlinked)
    | _ => none
  -- Without a file this is all that a release does.
  | .clear w =>
    match (s.workers w).phase with
    | .idle | .unlinked => some (s.setWorker w .idle false)
    | _ => none

abbrev run (s : State ω) (as : List (Action ω)) : Option (State ω) := Runs.run step s as

/-- The worker is the startup logger, with the lock acquired and not yet released. -/
def State.Logs (s : State ω) (w : ω) : Prop :=
  (s.workers w).isStartupLogger = true ∧ ∃ inode, (s.workers w).phase = .acquired inode

end Redgw.StartupLock
