import Redgw.Theorems.Capture
import Redgw.Theorems.RequestMetrics

/-! # The status in an audit line

The middleware keeps the status of the last response start, and 0 until there is one; the client receives the
status of the first start, or the 500 of the outermost middleware. -/

namespace Redgw
open Redis

/-! ### What the wrapper of `send` keeps -/

def Act.status? : Act → Option Nat
  | .send m => m.status?
  | _ => none

def Act.message? : Act → Option Message
  | .send m => some m
  | _ => none

/-- The statuses of the response starts that the application sends. -/
def Behaviour.starts (b : Behaviour) : List Nat := b.acts.filterMap Act.status?

theorem starts_eq (b : Behaviour) : b.starts = b.sends.filterMap Message.status? := by
  unfold Behaviour.starts Behaviour.sends
  rw [List.filterMap_filterMap]
  refine List.filterMap_congr fun a _ => ?_
  cases a <;> rfl

theorem sends_eq (b : Behaviour) : b.sends = b.acts.filterMap Act.message? := by
  unfold Behaviour.sends
  refine List.filterMap_congr fun a _ => ?_
  cases a <;> rfl

theorem status_echoRequestId (requestId : String) (m : Message) : (echoRequestId requestId m).status? = m.status? := by
  cases m <;> rfl

theorem auditAct_status (requestId : String) (s : AuditState) (a : Act) :
    (AuditState.act requestId s a).statusCode = a.status?.getD s.statusCode := by
  cases a with
  | receive chunk => exact (onReceive_kept s chunk).2.1
  | setPendingEvent event errorCode => rfl
  | send m => cases m <;> rfl

theorem auditAct_sent (requestId : String) (s : AuditState) (a : Act) :
    (AuditState.act requestId s a).sent = s.sent ++ (a.message?.map (echoRequestId requestId)).toList := by
  cases a with
  | receive chunk => exact (onReceive_kept s chunk).2.2.trans (List.append_nil _).symm
  | setPendingEvent event errorCode => exact (List.append_nil _).symm
  | send m => rfl

/-- The last status is kept. -/
theorem foldl_auditAct_status (requestId : String) (acts : List Act) (s : AuditState) :
    (acts.foldl (AuditState.act requestId) s).statusCode = (acts.filterMap Act.status?).getLastD s.statusCode := by
  induction acts generalizing s with
  | nil => rfl
  | cons a acts ih =>
    rw [List.foldl_cons, ih, auditAct_status]
    cases ha : a.status? with
    | none => rw [List.filterMap_cons_none ha, Option.getD_none]
    | some status => rw [List.filterMap_cons_some ha, List.getLastD_cons, Option.getD_some]

/-- Messages are passed on with the request id. -/
theorem foldl_auditAct_sent (requestId : String) (acts : List Act) (s : AuditState) :
    (acts.foldl (AuditState.act requestId) s).sent =
      s.sent ++ (acts.filterMap Act.message?).map (echoRequestId requestId) := by
  induction acts generalizing s with
  | nil => simp
  | cons a acts ih =>
    rw [List.foldl_cons, ih, auditAct_sent]
    cases ha : a.message? with
    | none => simp [List.filterMap_cons_none ha]
    | some m => simp [List.filterMap_cons_some ha]

/-! ### What the middlewares around it see -/

variable (st : Settings) (env : AuditEnv) (scope : Scope) (pending : Pending) (b : Behaviour)

/-- The messages are passed on with the request id, whether the request is captured or not. -/
theorem auditMiddleware_sent :
    (auditMiddleware st env scope pending b).sent = b.sends.map (echoRequestId (auditId env scope)) := by
  have hsent := foldl_auditAct_sent (auditId env scope) b.acts (.init pending)
  rw [← sends_eq] at hsent
  rcases audit_cases st scope with hex | ⟨hex, hc⟩ | ⟨hex, hc⟩
  · rw [auditMiddleware_excluded hex]
    exact hsent
  · rw [auditMiddleware_refused hex hc]
    exact hsent
  · rw [auditMiddleware_logged hex hc]
    exact hsent

/-- The audited application, as it shows to the middlewares around. An exception passes through. -/
def audited : Behaviour where
  acts := (auditMiddleware st env scope pending b).sent.map .send
  raised := b.raised
  clientId := b.clientId
  pathKey := b.pathKey

theorem audited_starts : (audited st env scope pending b).starts = b.starts := by
  rw [starts_eq, starts_eq, sends_eq]
  unfold audited
  rw [auditMiddleware_sent, List.filterMap_map, List.filterMap_map, List.filterMap_filterMap]
  exact List.filterMap_congr fun m _ => status_echoRequestId (auditId env scope) m

/-- The status that the client receives of an audited application. -/
theorem received_audited : receivedStatus (audited st env scope pending b) =
    b.starts.head?.or (if b.raised then some 500 else none) := by
  rw [receivedStatus_eq, ← starts_eq, audited_starts]
  rfl

/-- The line has the status that the client receives, and a status from 400 on stores no origin. -/
def StatusHonest : Prop :=
  ∀ status, receivedStatus (audited st env scope pending b) = some status →
    (∃ line, (auditMiddleware st env scope pending b).lines = [line] ∧ line.status = status) ∧
      (400 ≤ status → (auditMiddleware st env scope pending b).origin = [])

/-- The application starts a response before it raises, and any later start has the status of the first. -/
def StartsOnce (b : Behaviour) : Prop := (b.raised = true → b.starts ≠ []) ∧ b.starts.getLast? = b.starts.head?

variable {st scope}

theorem auditMiddleware_captured (hex : scope.path ∉ st.audit.excludePaths)
    (hc : decideCapture scope.method scope.path st.audit.level = true) :
    (∃ line, (auditMiddleware st env scope pending b).lines = [line] ∧ line.status = b.starts.getLastD 0) ∧
      (auditMiddleware st env scope pending b).origin = storeOrigin st env scope
        (auditId env scope) b (b.starts.getLastD 0) := by
  have hstatus := foldl_auditAct_status (auditId env scope) b.acts (.init pending)
  rw [auditMiddleware_logged hex hc]
  exact ⟨⟨_, rfl, hstatus⟩, congrArg (storeOrigin st env scope (auditId env scope) b) hstatus⟩

/-- Any other request stores no origin. -/
theorem auditMiddleware_uncaptured (h : scope.path ∈ st.audit.excludePaths ∨
    decideCapture scope.method scope.path st.audit.level = false) : (auditMiddleware st env scope pending b).origin = [] := by
  rcases audit_cases st scope with hex | ⟨hex, hc⟩ | ⟨hex, hc⟩
  · rw [auditMiddleware_excluded hex]
  · rw [auditMiddleware_refused hex hc]
  · rcases h with h | h
    · exact absurd h hex
    · rw [h] at hc
      cases hc

variable {env b}

theorem storeOrigin_failed {requestId : String} {status : Nat} (h : 400 ≤ status) :
    storeOrigin st env scope requestId b status = [] := by
  unfold storeOrigin
  split
  · rw [if_neg (by simp [h])]
  · rfl

/-- The line of a captured request is right about the status, and a failed request stores no origin, exactly when
    the application does not raise before it starts a response or start a second one with another status. -/
theorem status_honest_iff (st : Settings) (env : AuditEnv) (scope : Scope) (pending : Pending) (b : Behaviour)
    (hex : scope.path ∉ st.audit.excludePaths) (hc : decideCapture scope.method scope.path st.audit.level = true) :
    StatusHonest st env scope pending b ↔ StartsOnce b := by
  obtain ⟨⟨line, hlines, hline⟩, horigin⟩ := auditMiddleware_captured env pending b hex hc
  unfold StatusHonest StartsOnce
  rw [received_audited, hlines, horigin]
  cases hstarts : b.starts with
  | nil =>
    rw [hstarts] at hline
    cases hraised : b.raised with
    | false => simp
    | true =>
      constructor
      · intro h
        obtain ⟨⟨_, hone, hstatus⟩, -⟩ := h 500 rfl
        cases hone
        exact absurd (hline.symm.trans hstatus) (by simp)
      · intro h
        exact absurd rfl (h.1 rfl)
  | cons first starts =>
    have hlast : (first :: starts).getLast? = some (starts.getLastD first) := by
      rw [List.getLast?_cons, List.getLastD_eq_getLast?]
    rw [hstarts, List.getLastD_cons] at hline
    rw [hlast, List.getLastD_cons]
    constructor
    · intro h
      obtain ⟨⟨_, hone, hstatus⟩, -⟩ := h first rfl
      cases hone
      exact ⟨fun _ => List.cons_ne_nil _ _, congrArg some (hline.symm.trans hstatus)⟩
    · rintro ⟨-, hsame⟩ status hreceived
      cases hreceived
      have hsame : starts.getLastD first = first := Option.some.inj hsame
      rw [hsame] at hline ⊢
      exact ⟨⟨line, rfl, hline⟩, storeOrigin_failed⟩

def correlating : Settings where
  audit := { correlation := true }

def valueWrite : Scope := ⟨"PUT", "/api/v1/ns/app/kv/x", [], none⟩

theorem status_honest_iff_plain :
    StatusHonest correlating plainEnv valueWrite none plainBehaviour ↔ StartsOnce plainBehaviour :=
  status_honest_iff correlating plainEnv valueWrite none plainBehaviour (by decide) (by decide)

/-- A write whose handler raises: the client receives 500, the line says 0, and the write is given an origin. -/
theorem raised_write_has_origin :
    decideCapture valueWrite.method valueWrite.path correlating.audit.level = true ∧
    ¬StatusHonest correlating plainEnv valueWrite none ⟨[], true, some "app", some "x"⟩ ∧
    (auditMiddleware correlating plainEnv valueWrite none ⟨[], true, some "app", some "x"⟩).origin ≠ [] := by
  refine ⟨by decide, fun h => ?_, by decide⟩
  obtain ⟨⟨line, hline, hstatus⟩, -⟩ := h 500 rfl
  cases hline
  cases hstatus

end Redgw
