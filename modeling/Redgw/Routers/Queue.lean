import Redgw.Footprint
import Redgw.Route

/-! # Lists: `/ns/{ns}/queue/{key}` -/

namespace Redgw
open Redis

/-! ### The scripts that check the length and push -/

/-- `redis.call(..)` inside a script: an error reply ends the script. -/
def luaCall (c : KeyCmd) : Script :=
  (Prog.ask c : Prog KeyCmd (fun _ => Reply) String Reply).bind fun
    | .ok v => .pure v
    | .error msg => .raise msg

/-- A reply of LLEN as a Lua number. -/
def luaNumber : Json → Int
  | .int n => n
  | _ => 0

def pushCmd (direction : Side) (value : String) : KeyCmd :=
  match direction with
  | .left => .lpush value
  | .right => .rpush value

def popCmd (direction : Side) : KeyCmd :=
  match direction with
  | .right => .rpop
  | .left => .lpop

def singlePushLua (direction : Side) (value : String) (maxLen : Int) : Script := do
  let cur ← luaCall .llen
  if maxLen ≤ luaNumber cur then return .int (-1)
  luaCall (pushCmd direction value)

def pushAllLua (direction : Side) : List String → Script
  | [] => .pure .null
  | value :: values => do
    let _ ← luaCall (pushCmd direction value)
    pushAllLua direction values

def batchPushLua (direction : Side) (maxLen : Int) (values : List String) : Script := do
  let cur ← luaCall .llen
  let cnt : Int := values.length
  if maxLen < luaNumber cur + cnt then return .int (-1)
  let _ ← pushAllLua direction values
  return .int (luaNumber cur + cnt)

/-! ### Handlers -/

variable (st : Settings) (client : ClientInfo)

def batchPushQueue (ns key : String) (body : QueueBatchPushRequest) : Handler Json := do
  requireWrite client ns
  body.values.forM fun v => checkValueSize st v
  let redisKey ← buildKey st.engine ns queuePrefix key
  let maxLen := st.defaults.maxListLength
  let result ← script redisKey (batchPushLua body.direction maxLen body.values)
  if result.isInt (-1) then
    throw (error "QUEUE_FULL" s!"Queue '{key}' would exceed max length ({maxLen})")
  let ttl := resolveTtl st body.ttl
  let ttlResults ← pipeline [lifetime redisKey ttl, (redisKey, .ttl)]
  return ok (.obj [("length", result), ("pushed", .int body.values.length)]) ns key "list"
    (normalizedTtl (last ttlResults))

def pushQueue (ns key : String) (body : QueuePushRequest) : Handler Json := do
  requireWrite client ns
  checkValueSize st body.value
  let redisKey ← buildKey st.engine ns queuePrefix key
  let maxLen := st.defaults.maxListLength
  let result ← script redisKey (singlePushLua body.direction body.value maxLen)
  if result.isInt (-1) then
    throw (error "QUEUE_FULL" s!"Queue '{key}' has reached max length ({maxLen})")
  let ttl := resolveTtl st body.ttl
  let ttlResults ← pipeline [lifetime redisKey ttl, (redisKey, .ttl)]
  return ok (.obj [("length", result)]) ns key "list" (normalizedTtl (last ttlResults))

def popQueue (ns key : String) (direction : Side) : Handler Json := do
  requireWrite client ns
  let redisKey ← buildKey st.engine ns queuePrefix key
  let value ← redis redisKey (popCmd direction)
  if value.isNone then
    throw (error "QUEUE_EMPTY" s!"Queue '{key}' is empty" 404)
  return ok (.obj [("value", value)]) ns key "list"

def rangeQueue (ns key : String) (start stop : Int) : Handler Json := do
  requireRead client ns
  let redisKey ← buildKey st.engine ns queuePrefix key
  let values ← redis redisKey (.lrange start stop)
  return ok (.obj [("values", values), ("count", .int values.len)]) ns key "list"

def lenQueue (ns key : String) : Handler Json := do
  requireRead client ns
  let redisKey ← buildKey st.engine ns queuePrefix key
  let length ← redis redisKey .llen
  return ok (.obj [("length", length)]) ns key "list"

def deleteQueue (ns key : String) : Handler Json := do
  requireWrite client ns
  deleteKey st ns queuePrefix key "list"

def touchQueue (ns key : String) (body : TtlSetRequest) : Handler Json := do
  requireWrite client ns
  let redisKey ← buildKey st.engine ns queuePrefix key
  touchKey redisKey body.ttl ns key "list"

def trimQueue (ns key : String) (body : QueueTrimRequest) : Handler Json := do
  requireWrite client ns
  let redisKey ← buildKey st.engine ns queuePrefix key
  let _ ← redis redisKey (.ltrim (-body.keep) (-1))
  let length ← redis redisKey .llen
  return ok (.obj [("kept", length), ("length", length)]) ns key "list"

/-! ### Requests -/

open Prog

def queueRoutes : List Route :=
  [.underNs .POST [.lit "queue", .param "key", .lit "batch"],
   .underNs .POST [.lit "queue", .param "key"],
   .underNs .GET [.lit "queue", .param "key", .lit "pop"],
   .underNs .GET [.lit "queue", .param "key"],
   .underNs .GET [.lit "queue", .param "key", .lit "len"],
   .underNs .DELETE [.lit "queue", .param "key"],
   .underNs .PUT [.lit "queue", .param "key", .lit "touch"],
   .underNs .POST [.lit "queue", .param "key", .lit "trim"]]

inductive QueueOp
  | batchPushQueue (key : String) (body : QueueBatchPushRequest)
  | pushQueue (key : String) (body : QueuePushRequest)
  | popQueue (key : String) (direction : Side)
  | rangeQueue (key : String) (start stop : Int)
  | lenQueue (key : String)
  | deleteQueue (key : String)
  | touchQueue (key : String) (body : TtlSetRequest)
  | trimQueue (key : String) (body : QueueTrimRequest)

namespace QueueOp

def route : QueueOp → Route
  | batchPushQueue _ _ => .underNs .POST [.lit "queue", .param "key", .lit "batch"]
  | pushQueue _ _ => .underNs .POST [.lit "queue", .param "key"]
  | popQueue _ _ => .underNs .GET [.lit "queue", .param "key", .lit "pop"]
  | rangeQueue _ _ _ => .underNs .GET [.lit "queue", .param "key"]
  | lenQueue _ => .underNs .GET [.lit "queue", .param "key", .lit "len"]
  | deleteQueue _ => .underNs .DELETE [.lit "queue", .param "key"]
  | touchQueue _ _ => .underNs .PUT [.lit "queue", .param "key", .lit "touch"]
  | trimQueue _ _ => .underNs .POST [.lit "queue", .param "key", .lit "trim"]

def args : QueueOp → List String
  | batchPushQueue key _ | pushQueue key _ | popQueue key _ | rangeQueue key _ _ | lenQueue key | deleteQueue key
  | touchQueue key _ | trimQueue key _ => [key]

def valid : QueueOp → Bool
  | batchPushQueue _ body => body.valid
  | pushQueue _ body => body.valid
  | touchQueue _ body => body.valid
  | trimQueue _ body => body.valid
  | popQueue _ _ | rangeQueue _ _ _ | lenQueue _ | deleteQueue _ => true

def handle (ns : String) : QueueOp → Handler Json
  | batchPushQueue key body => Redgw.batchPushQueue st client ns key body
  | pushQueue key body => Redgw.pushQueue st client ns key body
  | popQueue key direction => Redgw.popQueue st client ns key direction
  | rangeQueue key start stop => Redgw.rangeQueue st client ns key start stop
  | lenQueue key => Redgw.lenQueue st client ns key
  | deleteQueue key => Redgw.deleteQueue st client ns key
  | touchQueue key body => Redgw.touchQueue st client ns key body
  | trimQueue key body => Redgw.trimQueue st client ns key body

def use : QueueOp → Use
  | rangeQueue _ _ _ | lenQueue _ => .reads
  | _ => .writes

variable {st : Settings} {client : ClientInfo}

theorem route_mem (o : QueueOp) : o.route ∈ queueRoutes := by
  cases o <;> simp [route, queueRoutes]

/-- A use that allows every command allows every script. -/
theorem script_writes (body : Script) : body.Calls fun c => Use.allows .writes c = true := by
  induction body with
  | pure a => trivial
  | raise e => trivial
  | call c k ih => exact ⟨rfl, ih⟩

theorem within (ns : String) (o : QueueOp) : (o.handle st client ns).Calls (Within st client ns o.use) := by
  have hp : queuePrefix ∈ storagePrefixes := by decide
  cases o with
  | batchPushQueue key body =>
    refine within_guard (u := .writes) fun ha => Calls.bind (Calls.forM (fun x => calls_ofExcept _ _) _) fun _ => ?_
    refine within_key hp fun k hk => Calls.bind (within_script ha hk (script_writes _)) fun result => ?_
    cases result.isInt (-1)
    · exact Calls.bind (within_pipeline ha (fits_single hk (by simp [lifetime, Use.allows]))) fun _ => trivial
    · trivial
  | pushQueue key body =>
    refine within_guard (u := .writes) fun ha => Calls.ofExcept_bind fun _ _ => ?_
    refine within_key hp fun k hk => Calls.bind (within_script ha hk (script_writes _)) fun result => ?_
    cases result.isInt (-1)
    · exact Calls.bind (within_pipeline ha (fits_single hk (by simp [lifetime, Use.allows]))) fun _ => trivial
    · trivial
  | popQueue key direction =>
    refine within_guard (u := .writes) fun ha => within_key hp fun k hk => ?_
    refine Calls.bind (within_redis ha hk rfl) fun value => ?_
    cases value.isNone <;> trivial
  | rangeQueue key start stop =>
    refine within_guard (u := .reads) fun ha => within_key hp fun k hk => ?_
    exact Calls.bind (within_redis ha hk rfl) fun _ => trivial
  | lenQueue key =>
    refine within_guard (u := .reads) fun ha => within_key hp fun k hk => ?_
    exact Calls.bind (within_redis ha hk rfl) fun _ => trivial
  | deleteQueue key => exact within_guard (u := .writes) fun ha => within_deleteKey hp ha
  | touchQueue key body => exact within_guard (u := .writes) fun ha => within_key hp fun k hk => within_touchKey ha hk
  | trimQueue key body =>
    refine within_guard (u := .writes) fun ha => within_key hp fun k hk => ?_
    refine Calls.bind (within_redis ha hk rfl) fun _ => ?_
    exact Calls.bind (within_redis ha hk rfl) fun _ => trivial

end QueueOp

end Redgw
