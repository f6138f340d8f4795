import Redgw.Keys
import Redgw.Redis.Command
import Redgw.Schemas

/-! # Handlers

A handler is a program over Redis commands and two side effects of a refused request: the event that it
leaves for the audit line, and the metric that it fires. The helpers here are what the routers share. -/

namespace Redgw
open Redis

inductive Call
  | redis (c : Cmd)
  | setPendingEvent (event errorCode : String)
  | fireMetric (reason : String)

abbrev Call.Ret : Call → Type
  | .redis c => c.Ret
  | _ => Unit

abbrev Handler (α : Type) := Prog Call Call.Ret Exn α

/-! ### Commands -/

/-- A `ResponseError` is raised where the reply is awaited. -/
def ofReply : Reply → Handler Json
  | .ok v => .pure v
  | .error msg => .raise (.redis msg)

/-- `await r.command(key, ..)` -/
def redis (key : String) (c : KeyCmd) : Handler Json := (Prog.ask (.redis (.at key c))).bind ofReply

def gather (g : GatherCmd) (keys : List String) : Handler Json := (Prog.ask (.redis (.gather g keys))).bind ofReply

def script (key : String) (body : Script) : Handler Json := (Prog.ask (.redis (.eval key body))).bind ofReply

def publish (channel message : String) : Handler Json :=
  (Prog.ask (.redis (.publish channel message))).bind ofReply

/-- The replies of a finished pipeline; its first error is raised. -/
def raiseFirstError : List Reply → Except Exn (List Json)
  | [] => .ok []
  | .error msg :: _ => .error (.redis msg)
  | .ok v :: rs => (raiseFirstError rs).map (v :: ·)

/-- The commands of a pipeline, each one sent whatever the others answer. -/
def sendAll : List (String × KeyCmd) → Handler (List Reply)
  | [] => .pure []
  | (key, c) :: cs => (Prog.ask (.redis (.at key c))).bind fun r => (sendAll cs).bind fun rs => .pure (r :: rs)

/-- `r.pipeline(transaction=False)`: separate commands, whose errors show at `execute()`. -/
def pipeline (cs : List (String × KeyCmd)) : Handler (List Json) := do
  raiseFirstError (← sendAll cs)

/-- `r.pipeline(transaction=True)`: one MULTI/EXEC. -/
def transaction (cs : List (String × KeyCmd)) : Handler (List Json) :=
  (Prog.ask (.redis (.multi cs))).bind fun rs => Prog.ofExcept (raiseFirstError rs)

/-- `results[-1]` -/
def last (results : List Json) : Json := results.getLast?.getD .null

/-- `results[0]` -/
def first (results : List Json) : Json := results.head?.getD .null

/-- `except aioredis.ResponseError`: other exceptions pass through. -/
def exceptResponseError {α : Type} (body : Handler α) (handler : String → Handler α) : Handler α :=
  body.catching fun
    | .redis msg => handler msg
    | e => throw e

/-! ### Permissions -/

/-- Whether the client may use `operation` on the namespace, by `*` or by name. -/
def checkAccess (client : ClientInfo) (ns operation : String) : Bool :=
  (match client.namespaces.lookup "*" with
    | some operations => operations.contains operation
    | none => false) ||
  (match client.namespaces.lookup ns with
    | some operations => operations.contains operation
    | none => false)

def requireAccess (client : ClientInfo) (ns operation : String) : Handler Unit :=
  if checkAccess client ns operation then .pure ()
  else do
    let _ ← Prog.ask (.setPendingEvent "namespace_denied" "NAMESPACE_DENIED")
    let _ ← Prog.ask (.fireMetric "namespace_denied")
    throw (error "NAMESPACE_DENIED"
      s!"Access to namespace '{ns}' with '{operation}' permission is not allowed for client '{client.clientId}'" 403)

def requireRead (client : ClientInfo) (ns : String) : Handler Unit := requireAccess client ns "read"

def requireWrite (client : ClientInfo) (ns : String) : Handler Unit := requireAccess client ns "write"

def requireAdmin (client : ClientInfo) : Handler Unit :=
  if client.clientId = "admin" then .pure ()
  else do
    let _ ← Prog.ask (.setPendingEvent "admin_required" "ADMIN_REQUIRED")
    let _ ← Prog.ask (.fireMetric "admin_required")
    throw (error "ADMIN_REQUIRED" "Admin privileges required" 403)

/-! ### Sizes, keys and lifetimes -/

/-- `len(value.encode()) > max_size` -/
def pyExceedsSize (value : String) (maxSize : Int) : Bool := decide (maxSize < (utf8 value).length)

/-- The module's size check, `value.len() <= max_size`. -/
def rustCheckUtf8ByteLen (value : String) (maxSize : Nat) : Bool := decide ((utf8 value).length ≤ maxSize)

structure OverflowError where
deriving DecidableEq, Repr

/-- A Python integer passed as `usize`, which holds 64 bits. -/
def toUsize (n : Int) : Except OverflowError Nat :=
  if 0 ≤ n ∧ n ≤ 18446744073709551615 then .ok n.toNat else .error ⟨⟩

/-- `not _rust_check_utf8_byte_len(value, max_size)` -/
def rustExceedsSize (value : String) (maxSize : Int) : Except OverflowError Bool := do
  return !rustCheckUtf8ByteLen value (← toUsize maxSize)

/-- Both engines compare the length of the UTF-8 encoding with the limit. -/
def exceedsSize (value : String) (maxSize : Nat) : Bool := decide (maxSize < (utf8 value).length)

def checkValueSize (st : Settings) (value : String) (label : String := "Value") : Except Exn Unit :=
  if exceedsSize value st.defaults.maxValueSize then
    .error (error "VALUE_TOO_LARGE" s!"{label} exceeds max size ({st.defaults.maxValueSize} bytes)")
  else .ok ()

def checkDictValuesSize (st : Settings) (data : Dict String) : Except Exn Unit :=
  data.items.forM fun x => checkValueSize st x.2 s!"Field '{x.1}'"

def resolveTtl (st : Settings) (bodyTtl : Option Int) : Int := bodyTtl.getD st.defaults.ttl

/-- `[build_key(ns, prefix, k) for k in keys]` -/
def buildKeys (st : Settings) (ns typePrefix : String) (keys : List String) : Except Exn (List String) :=
  keys.mapM fun k => buildKey st.engine ns typePrefix k

/-- The commands that a batch queues: those of each item, on the key that is built for it. -/
def queueItems {β : Type} (st : Settings) (ns typePrefix : String) (items : List (String × β))
    (queue : String → β → List (String × KeyCmd)) : Except Exn (List (String × KeyCmd)) := do
  let queued ← items.mapM fun x => do
    let redisKey ← buildKey st.engine ns typePrefix x.1
    return queue redisKey x.2
  return queued.flatten

/-- `expire(key, ttl)` for a positive lifetime, else `persist(key)`. -/
def lifetime (key : String) (ttl : Int) : String × KeyCmd :=
  (key, if 0 < ttl then .expire ttl else .persist)

/-- The body of the handlers that delete a whole key. -/
def deleteKey (st : Settings) (ns typePrefix key typeName : String) : Handler Json := do
  let redisKey ← buildKey st.engine ns typePrefix key
  let deleted ← redis redisKey .del
  if !deleted.truthy then
    throw (notFound key ns)
  return ok (.obj [("deleted", .bool true)]) ns key typeName

/-- The missing key is told by EXISTS, or by the TTL of a key that went between the commands. -/
def touchKey (redisKey : String) (ttl : Int) (ns key typeName : String) : Handler Json := do
  let results ← pipeline [(redisKey, .exists), lifetime redisKey ttl, (redisKey, .ttl)]
  if !(first results).truthy || (last results).isInt (-2) then
    throw (notFound key ns)
  return ok (.obj [("touched", .bool true)]) ns key typeName (last results)

end Redgw
