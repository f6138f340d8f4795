import Redgw.Footprint
import Redgw.Route

/-! # Strings: `/ns/{ns}/kv/{key}` -/

namespace Redgw
open Redis

variable (st : Settings) (client : ClientInfo)

def batchGetKv (ns : String) (body : BatchGetRequest) : Handler Json := do
  requireRead client ns
  let redisKeys ← buildKeys st ns kvPrefix body.keys
  let values ← gather .mget redisKeys
  let result := Dict.ofList ((body.keys.zip values.items).filter fun x => !x.2.isNone)
  return ok (.obj [("values", .obj result.items), ("count", .int result.length)]) ns "batch" "string"

def batchSetKv (ns : String) (body : KvBatchSetRequest) : Handler Json := do
  requireWrite client ns
  body.items.items.forM fun x => checkValueSize st x.2 s!"Key '{x.1}'"
  let ttl := resolveTtl st body.ttl
  let queued ← queueItems st ns kvPrefix body.items.items fun redisKey value =>
    [(redisKey, if 0 < ttl then .setex ttl value else .set value none false)]
  let _ ← transaction queued
  return ok (.obj [("stored", .int body.items.length)]) ns "batch" "string"

def getKv (ns key : String) : Handler Json := do
  requireRead client ns
  let redisKey ← buildKey st.engine ns kvPrefix key
  let results ← pipeline [(redisKey, .get), (redisKey, .ttl)]
  if (first results).isNone then
    throw (notFound key ns)
  return ok (.obj [("value", first results)]) ns key "string" (normalizedTtl (last results))

def setKv (ns key : String) (body : KvSetRequest) : Handler Json := do
  requireWrite client ns
  checkValueSize st body.value
  let redisKey ← buildKey st.engine ns kvPrefix key
  let ttl := resolveTtl st body.ttl
  let _ ← redis redisKey (if 0 < ttl then .setex ttl body.value else .set body.value none false)
  return ok (.obj [("value", .str body.value)]) ns key "string" (.int (if 0 < ttl then ttl else -1))

def deleteKv (ns key : String) : Handler Json := do
  requireWrite client ns
  deleteKey st ns kvPrefix key "string"

def existsKv (ns key : String) : Handler Json := do
  requireRead client ns
  let redisKey ← buildKey st.engine ns kvPrefix key
  let there ← redis redisKey .exists
  return ok (.obj [("exists", .bool there.truthy)]) ns key "string"

def incrKv (ns key : String) (body : KvIncrRequest) : Handler Json := do
  requireWrite client ns
  let redisKey ← buildKey st.engine ns kvPrefix key
  let results ← exceptResponseError (pipeline [(redisKey, .incrby body.delta), (redisKey, .ttl)]) fun _ =>
    throw (error "INVALID_VALUE" "Existing value is not an integer or the increment is out of int64 range")
  return ok (.obj [("value", .str (first results).pyStr)]) ns key "string" (normalizedTtl (last results))

def touchKv (ns key : String) (body : TtlSetRequest) : Handler Json := do
  requireWrite client ns
  let redisKey ← buildKey st.engine ns kvPrefix key
  touchKey redisKey body.ttl ns key "string"

/-- The size of the value is not checked here. -/
def setKvNx (ns key : String) (body : KvSetRequest) : Handler Json := do
  requireWrite client ns
  let redisKey ← buildKey st.engine ns kvPrefix key
  let ttl := resolveTtl st body.ttl
  let acquired ← redis redisKey (if 0 < ttl then .set body.value (some ttl) true else .set body.value none true)
  if !acquired.truthy then
    throw (error "KEY_EXISTS" s!"Key '{key}' already exists in namespace '{ns}'" 409)
  return ok (.obj [("acquired", .bool true), ("value", .str body.value)]) ns key "string"
    (.int (if 0 < ttl then ttl else -1))

/-! ### Requests -/

open Prog

def kvRoutes : List Route :=
  [.underNs .POST [.lit "kv", .lit "batch"],
   .underNs .PUT [.lit "kv", .lit "batch"],
   .underNs .GET [.lit "kv", .param "key"],
   .underNs .PUT [.lit "kv", .param "key"],
   .underNs .DELETE [.lit "kv", .param "key"],
   .underNs .GET [.lit "kv", .param "key", .lit "exists"],
   .underNs .POST [.lit "kv", .param "key", .lit "incr"],
   .underNs .PUT [.lit "kv", .param "key", .lit "touch"],
   .underNs .PUT [.lit "kv", .param "key", .lit "nx"]]

inductive KvOp
  | batchGetKv (body : BatchGetRequest)
  | batchSetKv (body : KvBatchSetRequest)
  | getKv (key : String)
  | setKv (key : String) (body : KvSetRequest)
  | deleteKv (key : String)
  | existsKv (key : String)
  | incrKv (key : String) (body : KvIncrRequest)
  | touchKv (key : String) (body : TtlSetRequest)
  | setKvNx (key : String) (body : KvSetRequest)

namespace KvOp

def route : KvOp → Route
  | batchGetKv _ => .underNs .POST [.lit "kv", .lit "batch"]
  | batchSetKv _ => .underNs .PUT [.lit "kv", .lit "batch"]
  | getKv _ => .underNs .GET [.lit "kv", .param "key"]
  | setKv _ _ => .underNs .PUT [.lit "kv", .param "key"]
  | deleteKv _ => .underNs .DELETE [.lit "kv", .param "key"]
  | existsKv _ => .underNs .GET [.lit "kv", .param "key", .lit "exists"]
  | incrKv _ _ => .underNs .POST [.lit "kv", .param "key", .lit "incr"]
  | touchKv _ _ => .underNs .PUT [.lit "kv", .param "key", .lit "touch"]
  | setKvNx _ _ => .underNs .PUT [.lit "kv", .param "key", .lit "nx"]

/-- The path parameters behind the namespace. -/
def args : KvOp → List String
  | batchGetKv _ | batchSetKv _ => []
  | getKv key | setKv key _ | deleteKv key | existsKv key | incrKv key _ | touchKv key _ | setKvNx key _ => [key]

def valid : KvOp → Bool
  | batchGetKv body => body.valid
  | batchSetKv body => body.valid
  | setKv _ body | setKvNx _ body => body.valid
  | incrKv _ body => body.valid
  | touchKv _ body => body.valid
  | getKv _ | deleteKv _ | existsKv _ => true

def handle (ns : String) : KvOp → Handler Json
  | batchGetKv body => Redgw.batchGetKv st client ns body
  | batchSetKv body => Redgw.batchSetKv st client ns body
  | getKv key => Redgw.getKv st client ns key
  | setKv key body => Redgw.setKv st client ns key body
  | deleteKv key => Redgw.deleteKv st client ns key
  | existsKv key => Redgw.existsKv st client ns key
  | incrKv key body => Redgw.incrKv st client ns key body
  | touchKv key body => Redgw.touchKv st client ns key body
  | setKvNx key body => Redgw.setKvNx st client ns key body

def use : KvOp → Use
  | batchGetKv _ | getKv _ | existsKv _ => .reads
  | _ => .writes

variable {st : Settings} {client : ClientInfo}

theorem route_mem (o : KvOp) : o.route ∈ kvRoutes := by
  cases o <;> simp [route, kvRoutes]

theorem within (ns : String) (o : KvOp) : (o.handle st client ns).Calls (Within st client ns o.use) := by
  have hp : kvPrefix ∈ storagePrefixes := by decide
  cases o with
  | batchGetKv body =>
    refine within_guard (u := .reads) fun ha => within_keys hp fun ks hks => ?_
    exact Calls.bind (within_gather ha hks) fun _ => trivial
  | batchSetKv body =>
    refine within_guard (u := .writes) fun ha => Calls.bind (Calls.forM (fun x => calls_ofExcept _ _) _) fun _ => ?_
    refine within_queue hp ?_ fun cs hcs => Calls.bind (within_transaction ha hcs) fun _ => trivial
    intro k v x hx
    rw [List.mem_singleton.mp hx]
    exact ⟨rfl, rfl⟩
  | getKv key =>
    refine within_guard (u := .reads) fun ha => within_key hp fun k hk => ?_
    refine Calls.bind (within_pipeline ha (fits_single hk (by simp [Use.allows, KeyCmd.reads]))) fun results => ?_
    split <;> trivial
  | setKv key body =>
    refine within_guard (u := .writes) fun ha => Calls.ofExcept_bind fun _ _ => within_key hp fun k hk => ?_
    exact Calls.bind (within_redis ha hk rfl) fun _ => trivial
  | deleteKv key => exact within_guard (u := .writes) fun ha => within_deleteKey hp ha
  | existsKv key =>
    refine within_guard (u := .reads) fun ha => within_key hp fun k hk => ?_
    exact Calls.bind (within_redis ha hk rfl) fun _ => trivial
  | incrKv key body =>
    refine within_guard (u := .writes) fun ha => within_key hp fun k hk => ?_
    refine Calls.bind (within_exceptResponseError ?_ fun _ => trivial) fun _ => trivial
    exact within_pipeline ha (fits_single hk (by simp [Use.allows]))
  | touchKv key body => exact within_guard (u := .writes) fun ha => within_key hp fun k hk => within_touchKey ha hk
  | setKvNx key body =>
    refine within_guard (u := .writes) fun ha => within_key hp fun k hk => ?_
    refine Calls.bind (within_redis ha hk rfl) fun acquired => ?_
    cases acquired.truthy <;> trivial

end KvOp
end Redgw
