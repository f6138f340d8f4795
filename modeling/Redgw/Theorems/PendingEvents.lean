import Mathlib.Data.List.Forall2
import Redgw.Theorems.Capture

/-! # Audit lines of a sequence of requests

Requests that are handled one after another share the place where an event waits for its audit line. Each
request takes out what is there at its end, so that a line has an event of its own request. -/

namespace Redgw

/-- A request as the audit middleware gets it, and how the application behaves. -/
structure Visit where
  env : AuditEnv
  scope : Scope
  behaviour : Behaviour

/-- What the middleware leaves behind of each request, the pending event handed on from one to the next. -/
def handled (st : Settings) : Pending → List Visit → List AuditRun
  | _, [] => []
  | pending, v :: visits =>
    let run := auditMiddleware st v.env v.scope pending v.behaviour
    run :: handled st run.pending visits

def Act.event? : Act → Pending
  | .setPendingEvent event errorCode => some (event, errorCode)
  | _ => none

/-- The last event that the application sets. -/
def Behaviour.lastEvent (b : Behaviour) : Pending := (b.acts.filterMap Act.event?).getLast?

/-- One line with the event. -/
def LineWith (event : String × Option String) (lines : List Record) : Prop :=
  ∃ line, lines = [line] ∧ (line.event, line.errorCode) = event

/-- The lines of a request depend on its own events: none for an excluded path, one for a captured request, and
    one for any other with an event. -/
structure OwnLines (st : Settings) (v : Visit) (run : AuditRun) : Prop where
  excluded : v.scope.path ∈ st.audit.excludePaths → run.lines = []
  captured : v.scope.path ∉ st.audit.excludePaths → decideCapture v.scope.method v.scope.path st.audit.level = true →
    LineWith (v.behaviour.lastEvent.getD ("api_call", none)) run.lines
  refused : v.scope.path ∉ st.audit.excludePaths → decideCapture v.scope.method v.scope.path st.audit.level = false →
    ∀ event, v.behaviour.lastEvent = some event → LineWith event run.lines
  silent : v.scope.path ∉ st.audit.excludePaths → decideCapture v.scope.method v.scope.path st.audit.level = false →
    v.behaviour.lastEvent = none → run.lines = []

/-! ### One request -/

theorem act_pending_eq (requestId : String) (s : AuditState) (a : Act) :
    (AuditState.act requestId s a).pending = a.event?.or s.pending := by
  cases a with
  | receive chunk => exact (onReceive_kept s chunk).1
  | setPendingEvent event errorCode => rfl
  | send m => rfl

/-- The last event of the application waits at the end, or the one that was there before. -/
theorem foldl_pending (requestId : String) (acts : List Act) (s : AuditState) :
    (acts.foldl (AuditState.act requestId) s).pending = (acts.filterMap Act.event?).getLast?.or s.pending := by
  induction acts generalizing s with
  | nil => rfl
  | cons a acts ih =>
    rw [List.foldl_cons, ih, act_pending_eq]
    cases ha : a.event? with
    | none => rw [List.filterMap_cons_none ha, Option.none_or]
    | some event =>
      rw [List.filterMap_cons_some ha, List.getLast?_cons]
      cases (acts.filterMap Act.event?).getLast? <;> rfl

theorem pending_consumed (st : Settings) (env : AuditEnv) (scope : Scope) (pending : Pending) (b : Behaviour) :
    (auditMiddleware st env scope pending b).pending = none := by
  rcases audit_cases st scope with hex | ⟨hex, hc⟩ | ⟨hex, hc⟩
  · rw [auditMiddleware_excluded hex]
  · rw [auditMiddleware_refused hex hc]
  · rw [auditMiddleware_logged hex hc]

theorem ownLines (st : Settings) (v : Visit) : OwnLines st v (auditMiddleware st v.env v.scope none v.behaviour) := by
  obtain ⟨env, scope, b⟩ := v
  have hpending : (auditEnd env scope none b).pending = b.lastEvent :=
    (foldl_pending (auditId env scope) b.acts (.init none)).trans Option.or_none
  constructor
  · intro hex
    rw [auditMiddleware_excluded hex]
  · intro hex hc
    rw [auditMiddleware_logged hex hc]
    exact ⟨_, rfl, congrArg (Option.getD · ("api_call", none)) hpending⟩
  · intro hex hc event hevent
    rw [auditMiddleware_refused hex hc, hpending, hevent]
    exact ⟨_, rfl, rfl⟩
  · intro hex hc hnone
    rw [auditMiddleware_refused hex hc, hpending, hnone]
    rfl

/-! ### A sequence -/

/-- Whatever the requests and the application do, each request leaves its own lines. -/
theorem each_leaves_own_lines (st : Settings) (visits : List Visit) :
    List.Forall₂ (OwnLines st) visits (handled st none visits) := by
  induction visits with
  | nil => exact .nil
  | cons v visits ih =>
    refine .cons (ownLines st v) ?_
    rw [pending_consumed]
    exact ih

end Redgw
