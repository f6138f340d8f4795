import Redgw.Api
import Redgw.Lib.Pool
import Redgw.Routers.Admin

/-! # The gateway at work

Requests of both planes and the ticks of the status monitor are served side by side, their commands in
any order. A request is served by a program: its handler, and then what the middlewares send. -/

namespace Redgw
open Redis Prog

/-! ### Serving as a program -/

def pendingAfter (pending : Pending) : Call → Pending
  | .setPendingEvent event errorCode => some (event, some errorCode)
  | _ => pending

/-- The handler with its end as its result, and with the event that it has left for the audit line. -/
def observed {α : Type} : Handler α → Pending → Handler (Except Exn α × Pending)
  | .pure a, pending => .pure (.ok a, pending)
  | .raise e, pending => .pure (.error e, pending)
  | .call c k, pending => .call c fun r => observed (k r) (pendingAfter pending c)

/-- What the middlewares see of a request. -/
structure Seen where
  scope : Scope
  clientId : Option String
  pathKey : Option String
  body : Bytes
  durationMs : Rat
  env : AuditEnv

namespace Seen

/-- An exception that is no `HTTPException` passes through the middlewares. -/
def behaviour (v : Seen) (result : Except Exn Json) (pending : Pending) : Behaviour where
  acts := .receive v.body :: (match pending with
    | some (event, errorCode) => [.setPendingEvent event errorCode]
    | none => []) ++ match result with
    | .error (.redis _) => []
    | _ => [.send (.start (Response.of result).status []), .send (.body false)]
  raised := match result with
    | .error (.redis _) => true
    | _ => false
  clientId := v.clientId
  pathKey := v.pathKey

/-- What the audit middleware leaves behind; below level 1 it is not there. -/
def audit (st : Settings) (v : Seen) (b : Behaviour) : AuditRun :=
  if st.audit.level = 0 then ⟨[], [], none, []⟩ else auditMiddleware st v.env v.scope none b

/-- The commands that the middlewares send once the handler is done. -/
def bookkeeping (st : Settings) (v : Seen) (result : Except Exn Json) (pending : Pending) : List (String × KeyCmd) :=
  (v.audit st (v.behaviour result pending)).origin ++ metricsCommands v.scope v.durationMs (v.behaviour result pending)

end Seen

/-- The handler, and then the commands of the middlewares one by one. -/
def served (st : Settings) (v : Seen) (body : Handler Json) : Handler Response :=
  (observed body none).bind fun x => (sendAll (v.bookkeeping st x.1 x.2)).bind fun _ => .pure (.of x.1)

/-! ### Requests -/

def Request.seen (q : Request) : Seen := ⟨q.scope, q.client.map (·.clientId), q.op.pathKey, q.body, q.durationMs, q.env⟩

structure AdminRequest where
  client : Option ClientInfo
  op : AdminOp
  headers : List (Bytes × Bytes)
  clientHost : Option String
  body : Bytes
  durationMs : Rat
  env : AuditEnv

namespace AdminRequest

def scope (q : AdminRequest) : Scope := ⟨methodText q.op.method, q.op.path, q.headers, q.clientHost⟩

def seen (q : AdminRequest) : Seen := ⟨q.scope, q.client.map (·.clientId), q.op.pathKey, q.body, q.durationMs, q.env⟩

end AdminRequest

/-- The dependencies come first, then the check of the parameters, then the handler. -/
def adminEndpoint (st : Settings) (client : Option ClientInfo) (op : AdminOp) : Handler Json := do
  let c ← verifyApiKey client
  if !op.valid then
    throw .unprocessable
  op.handle st c

/-- `_STATUS_LEADER_KEY` -/
def statusLeaderKey := "__redgw:status_monitor:tick"

/-- `_STATUS_LEADER_TTL` -/
def statusLeaderTtl : Int := 480

/-- What the gateway has to do: a request, or a round of a worker's status monitor. -/
inductive Job
  | data (q : Request)
  | admin (q : AdminRequest)
  | statusTick (pid : String)

/-- A round of the monitor ignores what goes wrong. -/
def Job.program (st : Settings) : Job → Handler (Option Response)
  | .data q => (served st q.seen (endpoint st q.client q.ns q.op)).bind fun r => .pure (some r)
  | .admin q => (served st q.seen (adminEndpoint st q.client q.op)).bind fun r => .pure (some r)
  | .statusTick pid =>
    (Prog.ask (.redis (.at statusLeaderKey (.set pid (some statusLeaderTtl) true)))).bind fun _ => .pure none

/-! ### The shared store -/

/-- A call on the store that all requests share. -/
def execStore (R : Server) : (c : Call) → Nat → Store → c.Ret × Store
  | .redis c, now, s => R.exec c now s
  | .setPendingEvent _ _, _, s => ((), s)
  | .fireMetric reason, now, s => ((), runCommands R now (recordAuthFailure reason) s)

/-- The requests in progress over one store. -/
abbrev Gateway := Pool Call Call.Ret Exn (Option Response) Store

/-- The gateway after a run from the empty store. -/
abbrev Gateway.run (st : Settings) (R : Server) (acts : List (Pool.Act Job Nat)) : Option Gateway :=
  Runs.run (Pool.step (execStore R) (Job.program st)) ⟨Store.empty, []⟩ acts

/-! ### Serving alone -/

variable {R : Server} {st : Settings}

theorem run_observed {α : Type} (p : Handler α) (now : Nat) (s : Store) (pending : Pending) :
    (observed p pending).run (execStore R) (fun _ => now) s =
      (.ok ((p.run (execCall R) (fun _ => now) ⟨s, pending⟩).1, (p.run (execCall R) (fun _ => now) ⟨s, pending⟩).2.pending),
        (p.run (execCall R) (fun _ => now) ⟨s, pending⟩).2.store) := by
  induction p generalizing s pending with
  | pure a => rfl
  | raise e => rfl
  | call c k ih => cases c <;> exact ih _ _ _

theorem run_sendAll (cs : List (String × KeyCmd)) (now : Nat) (s : Store) :
    (sendAll cs).run (execStore R) (fun _ => now) s = (.ok (R.transact now cs s).1, (R.transact now cs s).2) := by
  induction cs generalizing s with
  | nil => rfl
  | cons x cs ih =>
    have hrest := ih (R.atKey x.1 x.2 now s).2
    show ((sendAll cs).bind fun rs => .pure ((R.atKey x.1 x.2 now s).1 :: rs)).run (execStore R) (fun _ => now)
      (R.atKey x.1 x.2 now s).2 = _
    rw [run_map, hrest]
    rfl

/-- With no other request in progress, and no time passing, the program of a request does what `serve` does. -/
theorem run_served {q : Request} {now : Nat} (hclock : q.clock = fun _ => now) (hlater : q.later = now) (s : Store) :
    (served st q.seen (endpoint st q.client q.ns q.op)).run (execStore R) (fun _ => now) s =
      (.ok (serve st R q s).1, (serve st R q s).2) := by
  unfold served
  rw [run_bind_ok (run_observed ..), run_bind_ok (run_sendAll ..)]
  unfold serve handleRequest
  rw [hclock, hlater]
  rfl

end Redgw
