import Redgw.Audit.Middleware
import Redgw.MetricsMiddleware
import Redgw.Routers.Event
import Redgw.Routers.Group
import Redgw.Routers.Kv
import Redgw.Routers.Map
import Redgw.Routers.Pubsub
import Redgw.Routers.Queue
import Redgw.Routers.Rank

/-! # The data plane

A request of the data plane names a namespace and an operation. Serving it runs the handler against
the server and then the middlewares, which keep their own keys. -/

namespace Redgw
open Redis Prog

def dataRoutes : List Route :=
  kvRoutes ++ mapRoutes ++ queueRoutes ++ groupRoutes ++ rankRoutes ++ eventRoutes

inductive Op
  | kv (o : KvOp)
  | map (o : MapOp)
  | queue (o : QueueOp)
  | group (o : GroupOp)
  | rank (o : RankOp)
  | event (o : EventOp)
  | pubsub (o : PubsubOp)

namespace Op

def route : Op → Route
  | kv o => o.route
  | map o => o.route
  | queue o => o.route
  | group o => o.route
  | rank o => o.route
  | event o => o.route
  | pubsub o => o.route

def args : Op → List String
  | kv o => o.args
  | map o => o.args
  | queue o => o.args
  | group o => o.args
  | rank o => o.args
  | event o => o.args
  | pubsub o => o.args

def valid : Op → Bool
  | kv o => o.valid
  | map o => o.valid
  | queue o => o.valid
  | group o => o.valid
  | rank o => o.valid
  | event o => o.valid
  | pubsub o => o.valid

def handle (st : Settings) (client : ClientInfo) (ns : String) : Op → Handler Json
  | kv o => o.handle st client ns
  | map o => o.handle st client ns
  | queue o => o.handle st client ns
  | group o => o.handle st client ns
  | rank o => o.handle st client ns
  | event o => o.handle st client ns
  | pubsub o => o.handle st client ns

def use : Op → Use
  | kv o => o.use
  | map o => o.use
  | queue o => o.use
  | group o => o.use
  | rank o => o.use
  | event o => o.use
  | pubsub o => o.use

/-- The path parameter `key` of the route, if it has one. -/
def pathKey (o : Op) : Option String :=
  if Seg.param "key" ∈ o.route.segs then o.args.head? else none

theorem within {st : Settings} {client : ClientInfo} (ns : String) (o : Op) :
    (o.handle st client ns).Calls (Within st client ns o.use) := by
  cases o with
  | kv o => exact o.within ns
  | map o => exact o.within ns
  | queue o => exact o.within ns
  | group o => exact o.within ns
  | rank o => exact o.within ns
  | event o => exact o.within ns
  | pubsub o => exact o.within ns

end Op

def methodText : Method → String
  | .GET => "GET"
  | .PUT => "PUT"
  | .POST => "POST"
  | .DELETE => "DELETE"

/-- A request with what its handling takes from the surroundings. `client` is the one that its key
    belongs to, if any; `clock` gives the times of the commands of its handler. -/
structure Request where
  client : Option ClientInfo
  ns : String
  op : Op
  headers : List (Bytes × Bytes)
  clientHost : Option String
  body : Bytes
  clock : Nat → Nat
  later : Nat
  durationMs : Rat
  env : AuditEnv

namespace Request

def path (q : Request) : String := q.op.route.fill (q.ns :: q.op.args)

def method (q : Request) : String := methodText q.op.route.method

def scope (q : Request) : Scope := ⟨q.method, q.path, q.headers, q.clientHost⟩

end Request

/-! ### Handling -/

/-- `verify_api_key` -/
def verifyApiKey : Option ClientInfo → Handler ClientInfo
  | some client => .pure client
  | none => do
    let _ ← Prog.ask (.setPendingEvent "auth_fail" "UNAUTHORIZED")
    let _ ← Prog.ask (.fireMetric "auth_fail")
    throw (error "UNAUTHORIZED" "Invalid API key" 401)

/-- The dependencies come first, then the check of the body, then the handler. -/
def endpoint (st : Settings) (client : Option ClientInfo) (ns : String) (op : Op) : Handler Json := do
  let c ← verifyApiKey client
  if !op.valid then
    throw .unprocessable
  op.handle st c ns

/-- The state that a handler runs in: the store, and the event left for the audit line. -/
structure Ctx where
  store : Store
  pending : Pending

/-- The queued commands of a pipeline, one after another. -/
def runCommands (R : Server) (now : Nat) (cs : List (String × KeyCmd)) (s : Store) : Store := (R.transact now cs s).2

def execCall (R : Server) : (c : Call) → Nat → Ctx → c.Ret × Ctx
  | .redis c, now, x => ((R.exec c now x.store).1, { x with store := (R.exec c now x.store).2 })
  | .setPendingEvent event errorCode, _, x => ((), { x with pending := some (event, some errorCode) })
  | .fireMetric reason, now, x => ((), { x with store := runCommands R now (recordAuthFailure reason) x.store })

/-- What the middlewares see of a finished handler. An exception that is no `HTTPException` passes
    through them; any other end is a response with its status. -/
def behaviourOf (q : Request) (result : Except Exn Json) (pending : Pending) : Behaviour where
  acts := .receive q.body :: (match pending with
    | some (event, errorCode) => [.setPendingEvent event errorCode]
    | none => []) ++ match result with
    | .error (.redis _) => []
    | _ => [.send (.start (Response.of result).status []), .send (.body false)]
  raised := match result with
    | .error (.redis _) => true
    | _ => false
  clientId := q.client.map (·.clientId)
  pathKey := q.op.pathKey

/-- The handler alone: its result, and the state it leaves. -/
def handleRequest (st : Settings) (R : Server) (q : Request) (s : Store) : Except Exn Json × Ctx :=
  (endpoint st q.client q.ns q.op).run (execCall R) q.clock ⟨s, none⟩

/-- What the audit middleware leaves behind; below level 1 it is not there. -/
def auditOf (st : Settings) (q : Request) (result : Except Exn Json) (pending : Pending) : AuditRun :=
  if st.audit.level = 0 then ⟨[], [], none, []⟩
  else auditMiddleware st q.env q.scope none (behaviourOf q result pending)

/-- The commands that the middlewares send once the handler is done. -/
def bookkeeping (st : Settings) (q : Request) (result : Except Exn Json) (pending : Pending) :
    List (String × KeyCmd) :=
  (auditOf st q result pending).origin ++ metricsCommands q.scope q.durationMs (behaviourOf q result pending)

/-- The answer to a request and the store after it. -/
def serve (st : Settings) (R : Server) (q : Request) (s : Store) : Response × Store :=
  let (result, x) := handleRequest st R q s
  (.of result, runCommands R q.later (bookkeeping st q result x.pending) x.store)

/-- The audit lines of a request. -/
def auditLines (st : Settings) (R : Server) (q : Request) (s : Store) : List Record :=
  let (result, x) := handleRequest st R q s
  (auditOf st q result x.pending).lines

end Redgw
