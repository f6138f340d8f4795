import Redgw.Lib.Futures
import Redgw.Lib.Runs

/-! # Compressions in the background

The handlers of a process hand their backups to one gzip worker, and share the set of the compressions that are
not known to be done. A rotation waits for what is in the set when it begins. Any handler and the worker may
move between two operations. -/

namespace Redgw.FileLogger.Compressions
open Futures

/-- Where a handler is in `doRollover`. -/
inductive Place
  | outside
  -- `_wait_pending_compressions`: before the copy of the set, and with the futures that it still waits for
  | entering
  | waiting (futures : List Nat)
  -- in `_shift_backups`, or at the change of the date
  | shifting
  | switching
  -- `_compress_file_async`: the future is not in the set yet, or has no callback yet
  | adding (future : Nat)
  | calling (future : Nat)
  -- opens the new file and returns
  | opening
deriving DecidableEq

/-- `owner` is the handler that has submitted a job, `discarded` tells whether its callback has run. -/
structure State where
  executor : Executor Unit
  pending : List Nat
  owner : Nat → Nat
  discarded : Nat → Bool
  place : Nat → Place

def State.init : State := ⟨.init, [], fun _ => 0, fun _ => false, fun _ => .outside⟩

namespace State

def goto (s : State) (h : Nat) (p : Place) : State := { s with place := Function.update s.place h p }

/-- `_discard_pending_compression` -/
def discard (s : State) (j : Nat) : State :=
  { s with pending := s.pending.filter (· ≠ j), discarded := Function.update s.discarded j true }

end State

inductive Action
  | enter (h : Nat)
  | snapshot (h : Nat) (futures : List Nat)
  | result (h : Nat)
  | proceed (h : Nat) (sameDay : Bool)
  -- a rename or an unlink of `_shift_backups`
  | shift (h : Nat)
  | submit (h : Nat)
  | add (h : Nat)
  | addDoneCallback (h : Nat)
  | leave (h : Nat)
  | take
  | finish
  | invoke

/-- One operation of a handler or of the worker. The copy of a set has its elements in any order. -/
def step (s : State) : Action → Option State
  | .enter h => if s.place h = .outside then some (s.goto h .entering) else none
  | .snapshot h futures =>
    if s.place h = .entering ∧ futures.isPerm s.pending = true then some (s.goto h (.waiting futures)) else none
  | .result h =>
    match s.place h with
    | .waiting (future :: futures) => if s.executor.finished future then some (s.goto h (.waiting futures)) else none
    | _ => none
  | .proceed h sameDay =>
    if s.place h = .waiting [] then some (s.goto h (if sameDay then .shifting else .switching)) else none
  | .shift h => if s.place h = .shifting then some s else none
  | .submit h =>
    if s.place h = .shifting ∨ s.place h = .switching then
      some { s.goto h (.adding s.executor.submitted) with
        executor := s.executor.submit
        owner := Function.update s.owner s.executor.submitted h }
    else none
  | .add h =>
    match s.place h with
    | .adding j => some { s.goto h (.calling j) with pending := if j ∈ s.pending then s.pending else s.pending ++ [j] }
    | _ => none
  | .addDoneCallback h =>
    match s.place h with
    | .calling j =>
      let (executor, now) := s.executor.addDoneCallback j ()
      let t := { s with executor := executor }.goto h .opening
      some (if now then t.discard j else t)
    | _ => none
  -- Without compression, or with an exception, nothing is submitted.
  | .leave h =>
    if s.place h = .shifting ∨ s.place h = .switching ∨ s.place h = .opening then some (s.goto h .outside) else none
  | .take => s.executor.take.map fun x => { s with executor := x }
  | .finish => s.executor.finish.map fun x => { s with executor := x }
  | .invoke => s.executor.invoke.map fun (j, callbacks, x) =>
    if callbacks.isEmpty then { s with executor := x } else { s with executor := x }.discard j

end Redgw.FileLogger.Compressions
