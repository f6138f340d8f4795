import Redgw.Lib.Runs

/-! # The audit queue

Requests put their audit lines into a bounded queue, and a listener thread hands them to the file
handler. The event loop and the listener take turns in any order. Shutting down puts a sentinel
behind the lines and waits for the listener to reach it. -/

namespace Redgw.AuditLogger

variable {ρ : Type}

/-- `_QUEUE_MAXSIZE` -/
def queueMaxsize : Nat := 10000

/-- The listener thread: between two lines, with one in hand, or done. There is none at level 0. -/
inductive Listener (ρ : Type)
  | absent
  | idle
  | holding (record : ρ)
  | finished
deriving DecidableEq

/-- Where the event loop is: serving, between putting a line and counting it, or shutting down. -/
inductive Phase
  | serving
  | logged
  | stopping
  | joining
  | stopped
  | returned (count : Nat)
deriving DecidableEq

/-- `none` in the queue is the sentinel. `captured` are the lines that were to be logged, in order, and
    `handed` those that reached the file handler. -/
structure State (ρ : Type) where
  queue : List (Option ρ)
  listener : Listener ρ
  phase : Phase
  eventCount : Nat
  droppedQueueFull : Nat
  captured : List ρ
  handed : List ρ
deriving DecidableEq

/-- `init_audit_logger`, with the drop counter at 0. -/
def State.init (ρ : Type) (level : Nat) : State ρ where
  queue := []
  listener := if level = 0 then .absent else .idle
  phase := .serving
  eventCount := 0
  droppedQueueFull := 0
  captured := []
  handed := []

inductive Action (ρ : Type)
  | capture (record : ρ)
  | incrementEventCount
  | shutdown
  | putSentinel
  | join
  | finish
  | dequeue
  | handle
deriving DecidableEq

/-- `_DropCountingQueueHandler.enqueue` -/
def State.enqueue (s : State ρ) (record : ρ) : State ρ :=
  if s.queue.length < queueMaxsize then { s with queue := s.queue ++ [some record] }
  else { s with droppedQueueFull := s.droppedQueueFull + 1 }

/-- One step of the event loop or of the listener. -/
def step (s : State ρ) : Action ρ → Option (State ρ)
  | .capture record =>
    match s.phase, s.listener with
    | .serving, .absent => none
    | .serving, _ => some { s.enqueue record with phase := .logged, captured := s.captured ++ [record] }
    | _, _ => none
  | .incrementEventCount =>
    if s.phase = .logged then some { s with phase := .serving, eventCount := s.eventCount + 1 } else none
  | .shutdown => if s.phase = .serving then some { s with phase := .stopping } else none
  -- `stop()`: the exception of a full queue is swallowed, and nothing waits for the listener.
  | .putSentinel =>
    match s.phase, s.listener with
    | .stopping, .absent => some { s with phase := .stopped }
    | .stopping, _ =>
      if s.queue.length < queueMaxsize then some { s with queue := s.queue ++ [none], phase := .joining }
      else some { s with phase := .stopped }
    | _, _ => none
  | .join =>
    match s.phase, s.listener with
    | .joining, .finished => some { s with phase := .stopped }
    | _, _ => none
  | .finish => if s.phase = .stopped then some { s with phase := .returned s.eventCount } else none
  | .dequeue =>
    match s.listener, s.queue with
    | .idle, some record :: queue => some { s with queue := queue, listener := .holding record }
    | .idle, none :: queue => some { s with queue := queue, listener := .finished }
    | _, _ => none
  | .handle =>
    match s.listener with
    | .holding record => some { s with listener := .idle, handed := s.handed ++ [record] }
    | _ => none

abbrev run (s : State ρ) (as : List (Action ρ)) : Option (State ρ) := Runs.run step s as

end Redgw.AuditLogger
