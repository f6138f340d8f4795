import Redgw.Asgi
import Redgw.Keys
import Redgw.Redis.Command

/-! # The audit middleware

For each request the middleware decides from the method, the path and the level whether it captures
the request. A captured request gives one line however it ends; of the others only a refusal does. -/

namespace Redgw
open Redis

/-! ### The decision -/

def methodWrites (method : String) : Bool := ["PUT", "POST", "DELETE"].contains method

def decideCapture (method path : String) (level : Nat) : Bool :=
  if level = 0 then false
  else
    let isAdmin := "/api/v1/admin/".toList.isPrefixOf path.toList
    let isPubsubPublish := Text.occurs "/publish/".toList path.toList
    let isWrite := methodWrites method
    if level = 1 then
      if isAdmin then true
      else if isPubsubPublish then false
      else isWrite
    else true

/-! ### What a line says -/

/-- The parts of the surroundings that a line takes up. -/
structure AuditEnv where
  now : String
  latencyMs : Rat
  uuid4 : String
  /-- `sha256(body).hexdigest()[:16]` -/
  sha256 : Bytes → String
  /-- `bytes.decode("utf-8", errors="replace")` -/
  decodeReplace : Bytes → String

structure Record where
  ts : String
  requestId : String
  event : String
  clientId : Option String
  ip : Option String
  method : String
  path : String
  ns : Option String
  key : Option String
  status : Nat
  errorCode : Option String
  latencyMs : Rat
  valueHash : Option String
  valueSize : Option Nat
  valueType : Option String
  adminAction : Option String
  schemaVersion : Nat
  valuePrefix : Option String

/-- `^[A-Za-z0-9_-]{1,128}$`, where `$` also matches before a newline at the end. -/
def requestIdRe (s : List Char) : Bool :=
  let form := fun w : List Char => w.all nsChar && decide (1 ≤ w.length ∧ w.length ≤ 128)
  form s || (s.getLast? == some '\n' && form s.dropLast)

def validateRequestId (value uuid4 : String) : String := if requestIdRe value.toList then value else uuid4

/-- What follows `w` at the beginning of `s`. -/
def afterPrefix (w : String) (s : List Char) : Option (List Char) :=
  if w.toList.isPrefixOf s then some (s.drop w.toList.length) else none

/-- `^/api/v1/ns/([^/]+)/`: the namespace and what follows it. -/
def nsMatch (path : String) : Option (List Char × List Char) := do
  let rest ← afterPrefix "/api/v1/ns/" path.toList
  (Text.cut '/' rest).filter fun x => !x.1.isEmpty

def extractNs (path : String) : Option String := (nsMatch path).map fun x => .ofList x.1

/-- `([^?]+?)(?:\?.*)?$` on all of `r`: the first group. -/
def keyGroup (r : List Char) : Option (List Char) :=
  match Text.cut '?' r with
  | none =>
    if r.isEmpty then none
    else if r.getLast? == some '\n' && decide (2 ≤ r.length) then some r.dropLast
    else some r
  | some (a, b) =>
    -- `.` stops at a newline, and only the last one may stay behind.
    if a.isEmpty || b.dropLast.contains '\n' then none else some a

def extractKey (path : String) : Option String := do
  let (_, rest) ← nsMatch path
  let (token, r) ← Text.cut '/' rest
  if ["kv", "map", "queue", "group", "rank", "event"].contains (String.ofList token) then
    (keyGroup r).map .ofList
  else none

/-- `str.isspace` -/
def isSpace (c : Char) : Bool :=
  decide (9 ≤ c.toNat ∧ c.toNat ≤ 13 ∨ 28 ≤ c.toNat ∧ c.toNat ≤ 32 ∨ 0x2000 ≤ c.toNat ∧ c.toNat ≤ 0x200a) ||
    [0x85, 0xa0, 0x1680, 0x2028, 0x2029, 0x202f, 0x205f, 0x3000].contains c.toNat

/-- `str.strip` -/
def stripSpace (s : List Char) : List Char := (s.dropWhile isSpace).rdropWhile isSpace

def extractIp (scope : Scope) : Option String :=
  let xri := ((header "x-real-ip" scope.headers).map fun v => String.ofList (stripSpace (decodeAscii v).toList)).filter
    (· ≠ "")
  xri.or scope.clientHost

/-- No path names an admin action. -/
def detectAdminAction (_path : String) : Option String := none

def detectValueType (body : Bytes) (contentType : String) : String :=
  let ct := (stripSpace ((Text.split ';' 1 contentType.toList).headD [])).map Char.toLower
  if ct = "application/json".toList then "json"
  else if ct = "application/octet-stream".toList then "binary"
  else if (ByteArray.mk body.toArray).validateUTF8 then "string"
  else "binary"

/-! ### A request -/

abbrev Pending := Option (String × Option String)

/-- What the wrappers keep while the application runs. -/
structure AuditState where
  pending : Pending
  statusCode : Nat
  body : Bytes
  truncated : Bool
  sent : List Message

def maxCaptureBody : Nat := 1024 * 1024

/-- The start message with the request id as its only `x-request-id` header. -/
def echoRequestId (requestId : String) : Message → Message
  | .start status headers =>
    .start status (headers.filter (·.1 ≠ encodeAscii "x-request-id") ++
      [(encodeAscii "x-request-id", encodeAscii requestId)])
  | m => m

def AuditState.onReceive (s : AuditState) (chunk : Bytes) : AuditState :=
  if chunk.isEmpty || s.truncated then s
  else
    let remaining := maxCaptureBody - s.body.length
    if chunk.length ≤ remaining then { s with body := s.body ++ chunk }
    else { s with body := s.body ++ chunk.take remaining, truncated := true }

def AuditState.onSend (requestId : String) (s : AuditState) (m : Message) : AuditState :=
  { s with
    statusCode := match m with
      | .start status _ => status
      | .body _ => s.statusCode
    sent := s.sent ++ [echoRequestId requestId m] }

def AuditState.act (requestId : String) (s : AuditState) : Act → AuditState
  | .receive chunk => s.onReceive chunk
  | .setPendingEvent event errorCode => { s with pending := some (event, errorCode) }
  | .send m => s.onSend requestId m

/-- What the middleware leaves behind: the lines, the messages that it passed on, the pending event,
    and the origin that it stores. -/
structure AuditRun where
  lines : List Record
  sent : List Message
  pending : Pending
  origin : List (String × KeyCmd)

variable (st : Settings) (env : AuditEnv) (scope : Scope)

def recordOf (requestId : String) (event : String × Option String) (b : Behaviour) (status : Nat) (body : Bytes) :
    Record where
  ts := env.now
  requestId := requestId
  event := event.1
  clientId := b.clientId
  ip := extractIp scope
  method := scope.method
  path := scope.path
  ns := extractNs scope.path
  key := extractKey scope.path
  status := status
  errorCode := event.2
  latencyMs := env.latencyMs
  valueHash := if methodWrites scope.method && !body.isEmpty then some (env.sha256 body) else none
  valueSize := if methodWrites scope.method && !body.isEmpty then some body.length else none
  valueType :=
    if methodWrites scope.method && !body.isEmpty then
      some (detectValueType body (((header "content-type" scope.headers).map decodeAscii).getD ""))
    else none
  adminAction := detectAdminAction scope.path
  schemaVersion := 1
  valuePrefix :=
    if st.audit.level = 2 ∧ 0 < st.audit.payloadPrefixBytes ∧ body ≠ [] then
      some (env.decodeReplace (body.take st.audit.payloadPrefixBytes))
    else none

/-- `json.dumps` of the origin. -/
def originValue (requestId : String) (b : Behaviour) : String :=
  let clientId := match b.clientId with
    | some id => jsonString id
    | none => "null"
  "\x7b\"request_id\":" ++ jsonString requestId ++ ",\"client_id\":" ++ clientId ++ ",\"ts\":" ++
    jsonString env.now ++ "\x7d"

/-- The origin of the last write, stored beside the data key. -/
def storeOrigin (requestId : String) (b : Behaviour) (status : Nat) : List (String × KeyCmd) :=
  match extractNs scope.path, b.pathKey with
  | some ns, some key =>
    if st.audit.correlation && methodWrites scope.method && decide (ns ≠ "") && decide (key ≠ "") &&
        decide (status < 400) then
      match (scope.path.toList.splitOn '/')[5]? with
      | none => []
      | some token =>
        let built : Except Exn String := do
          let typePrefix ← resolveTypePrefix (.ofList token)
          buildKey st.engine ns typePrefix key
        match built with
        | .ok redisKey =>
          [("__redgw:audit:origin:" ++ redisKey,
            .set (originValue env requestId b) (some st.audit.correlationTtlSeconds) false)]
        | .error _ => []
    else []
  | _, _ => []

def AuditState.init (pending : Pending) : AuditState := ⟨pending, 0, [], false, []⟩

/-- `AuditMiddleware.__call__`; `pending` is what the context holds when the request comes in. -/
def auditMiddleware (pending : Pending) (b : Behaviour) : AuditRun :=
  let requestId := validateRequestId (((header "x-request-id" scope.headers).map decodeAscii).getD "") env.uuid4
  let s := b.acts.foldl (AuditState.act requestId) (.init pending)
  if st.audit.excludePaths.contains scope.path then ⟨[], s.sent, none, []⟩
  else if !decideCapture scope.method scope.path st.audit.level then
    -- The body is not collected here.
    let lines := match s.pending with
      | some event => [recordOf st env scope requestId event b s.statusCode []]
      | none => []
    ⟨lines, s.sent, none, []⟩
  else
    let event := s.pending.getD ("api_call", none)
    ⟨[recordOf st env scope requestId event b s.statusCode s.body], s.sent, none,
      storeOrigin st env scope requestId b s.statusCode⟩

/-! ### What becomes of a request -/

/-- The request id of the line and of the response. -/
def auditId : String := validateRequestId (((header "x-request-id" scope.headers).map decodeAscii).getD "") env.uuid4

/-- What the wrappers have kept when the application has ended. -/
def auditEnd (pending : Pending) (b : Behaviour) : AuditState :=
  b.acts.foldl (AuditState.act (auditId env scope)) (.init pending)

variable {st env scope} {pending : Pending} {b : Behaviour}

theorem auditMiddleware_excluded (hex : scope.path ∈ st.audit.excludePaths) :
    auditMiddleware st env scope pending b = ⟨[], (auditEnd env scope pending b).sent, none, []⟩ := by
  unfold auditMiddleware
  rw [if_pos (by simpa using hex)]
  rfl

theorem auditMiddleware_refused (hex : scope.path ∉ st.audit.excludePaths)
    (hc : decideCapture scope.method scope.path st.audit.level = false) : auditMiddleware st env scope pending b =
      ⟨(auditEnd env scope pending b).pending.toList.map fun event =>
          recordOf st env scope (auditId env scope) event b (auditEnd env scope pending b).statusCode [],
        (auditEnd env scope pending b).sent, none, []⟩ := by
  have hlines : ∀ p : Pending, (match p with
      | some event => [recordOf st env scope (auditId env scope) event b (auditEnd env scope pending b).statusCode []]
      | none => []) = p.toList.map fun event =>
        recordOf st env scope (auditId env scope) event b (auditEnd env scope pending b).statusCode [] := by
    intro p
    cases p <;> rfl
  unfold auditMiddleware
  rw [if_neg (by simpa using hex), if_pos (by simp [hc])]
  exact congrArg (fun lines => AuditRun.mk lines (auditEnd env scope pending b).sent none []) (hlines _)

theorem auditMiddleware_logged (hex : scope.path ∉ st.audit.excludePaths)
    (hc : decideCapture scope.method scope.path st.audit.level = true) : auditMiddleware st env scope pending b =
      ⟨[recordOf st env scope (auditId env scope) ((auditEnd env scope pending b).pending.getD ("api_call", none)) b
          (auditEnd env scope pending b).statusCode (auditEnd env scope pending b).body],
        (auditEnd env scope pending b).sent, none,
        storeOrigin st env scope (auditId env scope) b (auditEnd env scope pending b).statusCode⟩ := by
  unfold auditMiddleware
  rw [if_neg (by simpa using hex), if_neg (by simp [hc])]
  rfl

/-- A path is excluded, or its requests are captured or not. -/
theorem audit_cases (st : Settings) (scope : Scope) : scope.path ∈ st.audit.excludePaths ∨
    (scope.path ∉ st.audit.excludePaths ∧ decideCapture scope.method scope.path st.audit.level = false) ∨
    (scope.path ∉ st.audit.excludePaths ∧ decideCapture scope.method scope.path st.audit.level = true) := by
  by_cases hex : scope.path ∈ st.audit.excludePaths
  · exact .inl hex
  · cases hc : decideCapture scope.method scope.path st.audit.level with
    | false => exact .inr (.inl ⟨hex, rfl⟩)
    | true => exact .inr (.inr ⟨hex, rfl⟩)

end Redgw
