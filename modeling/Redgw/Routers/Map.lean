import Redgw.Footprint
import Redgw.Route

/-! # Hashes: `/ns/{ns}/map/{key}` -/

namespace Redgw
open Redis

variable (st : Settings) (client : ClientInfo)

def batchGetMap (ns : String) (body : BatchGetRequest) : Handler Json := do
  requireRead client ns
  let redisKeys ← buildKeys st ns mapPrefix body.keys
  let results ← pipeline (redisKeys.map fun rk => (rk, .hgetall))
  let values := Dict.ofList ((body.keys.zip results).filter fun x => x.2.truthy)
  return ok (.obj [("values", .obj values.items), ("count", .int values.length)]) ns "batch" "hash"

def batchSetMap (ns : String) (body : MapBatchSetRequest) : Handler Json := do
  requireWrite client ns
  body.items.items.forM fun x => checkDictValuesSize st x.2
  let ttl := resolveTtl st body.ttl
  let queued ← queueItems st ns mapPrefix body.items.items fun redisKey fields =>
    [(redisKey, .hset fields.items), lifetime redisKey ttl]
  let _ ← transaction queued
  return ok (.obj [("stored", .int body.items.length)]) ns "batch" "hash"

def getMap (ns key : String) : Handler Json := do
  requireRead client ns
  let redisKey ← buildKey st.engine ns mapPrefix key
  let results ← pipeline [(redisKey, .hgetall), (redisKey, .ttl)]
  if !(first results).truthy then
    throw (notFound key ns)
  return ok (.obj [("fields", first results)]) ns key "hash" (normalizedTtl (last results))

def getMapField (ns key field : String) : Handler Json := do
  requireRead client ns
  let redisKey ← buildKey st.engine ns mapPrefix key
  let results ← pipeline [(redisKey, .hget field), (redisKey, .ttl)]
  if (first results).isNone then
    throw (error "FIELD_NOT_FOUND" s!"Field '{field}' not found in key '{key}'" 404)
  return ok (.obj [("field", .str field), ("value", first results)]) ns key "hash" (normalizedTtl (last results))

def setMap (ns key : String) (body : MapSetRequest) : Handler Json := do
  requireWrite client ns
  checkDictValuesSize st body.fields
  let redisKey ← buildKey st.engine ns mapPrefix key
  let ttl := resolveTtl st body.ttl
  let results ← transaction [(redisKey, .hset body.fields.items), lifetime redisKey ttl, (redisKey, .ttl)]
  return ok (.obj [("fields", .obj (body.fields.items.map fun x => (x.1, .str x.2)))]) ns key "hash" (last results)

def touchMap (ns key : String) (body : TtlSetRequest) : Handler Json := do
  requireWrite client ns
  let redisKey ← buildKey st.engine ns mapPrefix key
  touchKey redisKey body.ttl ns key "hash"

def setMapField (ns key field : String) (body : MapFieldSetRequest) : Handler Json := do
  requireWrite client ns
  checkValueSize st body.value
  let redisKey ← buildKey st.engine ns mapPrefix key
  let ttl := resolveTtl st body.ttl
  let data : Json := .obj [("field", .str field), ("value", .str body.value)]
  if 0 < ttl then
    let results ← transaction [(redisKey, .hset [(field, body.value)]), (redisKey, .expire ttl), (redisKey, .ttl)]
    return ok data ns key "hash" (last results)
  else
    -- Without a lifetime the three commands are not one transaction.
    let results ← pipeline [(redisKey, .hset [(field, body.value)]), (redisKey, .persist), (redisKey, .ttl)]
    return ok data ns key "hash" (normalizedTtl (last results))

def deleteMap (ns key : String) : Handler Json := do
  requireWrite client ns
  deleteKey st ns mapPrefix key "hash"

def deleteMapField (ns key field : String) : Handler Json := do
  requireWrite client ns
  let redisKey ← buildKey st.engine ns mapPrefix key
  let deleted ← redis redisKey (.hdel field)
  if !deleted.truthy then
    throw (error "FIELD_NOT_FOUND" s!"Field '{field}' not found in key '{key}'" 404)
  return ok (.obj [("deleted", .bool true), ("field", .str field)]) ns key "hash"

/-! ### Requests -/

open Prog

def mapRoutes : List Route :=
  [.underNs .POST [.lit "map", .lit "batch"],
   .underNs .PUT [.lit "map", .lit "batch"],
   .underNs .GET [.lit "map", .param "key"],
   .underNs .GET [.lit "map", .param "key", .param "field"],
   .underNs .PUT [.lit "map", .param "key"],
   .underNs .PUT [.lit "map", .param "key", .lit "touch"],
   .underNs .PUT [.lit "map", .param "key", .param "field"],
   .underNs .DELETE [.lit "map", .param "key"],
   .underNs .DELETE [.lit "map", .param "key", .param "field"]]

inductive MapOp
  | batchGetMap (body : BatchGetRequest)
  | batchSetMap (body : MapBatchSetRequest)
  | getMap (key : String)
  | getMapField (key field : String)
  | setMap (key : String) (body : MapSetRequest)
  | touchMap (key : String) (body : TtlSetRequest)
  | setMapField (key field : String) (body : MapFieldSetRequest)
  | deleteMap (key : String)
  | deleteMapField (key field : String)

namespace MapOp

def route : MapOp → Route
  | batchGetMap _ => .underNs .POST [.lit "map", .lit "batch"]
  | batchSetMap _ => .underNs .PUT [.lit "map", .lit "batch"]
  | getMap _ => .underNs .GET [.lit "map", .param "key"]
  | getMapField _ _ => .underNs .GET [.lit "map", .param "key", .param "field"]
  | setMap _ _ => .underNs .PUT [.lit "map", .param "key"]
  | touchMap _ _ => .underNs .PUT [.lit "map", .param "key", .lit "touch"]
  | setMapField _ _ _ => .underNs .PUT [.lit "map", .param "key", .param "field"]
  | deleteMap _ => .underNs .DELETE [.lit "map", .param "key"]
  | deleteMapField _ _ => .underNs .DELETE [.lit "map", .param "key", .param "field"]

def args : MapOp → List String
  | batchGetMap _ | batchSetMap _ => []
  | getMap key | setMap key _ | touchMap key _ | deleteMap key => [key]
  | getMapField key field | setMapField key field _ | deleteMapField key field => [key, field]

def valid : MapOp → Bool
  | batchGetMap body => body.valid
  | batchSetMap body => body.valid
  | setMap _ body => body.valid
  | touchMap _ body => body.valid
  | setMapField _ _ body => body.valid
  | getMap _ | getMapField _ _ | deleteMap _ | deleteMapField _ _ => true

def handle (ns : String) : MapOp → Handler Json
  | batchGetMap body => Redgw.batchGetMap st client ns body
  | batchSetMap body => Redgw.batchSetMap st client ns body
  | getMap key => Redgw.getMap st client ns key
  | getMapField key field => Redgw.getMapField st client ns key field
  | setMap key body => Redgw.setMap st client ns key body
  | touchMap key body => Redgw.touchMap st client ns key body
  | setMapField key field body => Redgw.setMapField st client ns key field body
  | deleteMap key => Redgw.deleteMap st client ns key
  | deleteMapField key field => Redgw.deleteMapField st client ns key field

def use : MapOp → Use
  | batchGetMap _ | getMap _ | getMapField _ _ => .reads
  | _ => .writes

variable {st : Settings} {client : ClientInfo}

theorem route_mem (o : MapOp) : o.route ∈ mapRoutes := by
  cases o <;> simp [route, mapRoutes]

theorem within (ns : String) (o : MapOp) : (o.handle st client ns).Calls (Within st client ns o.use) := by
  have hp : mapPrefix ∈ storagePrefixes := by decide
  cases o with
  | batchGetMap body =>
    refine within_guard (u := .reads) fun ha => within_keys hp fun ks hks => ?_
    exact Calls.bind (within_pipeline ha (fits_map hks rfl)) fun _ => trivial
  | batchSetMap body =>
    refine within_guard (u := .writes) fun ha => Calls.bind (Calls.forM (fun x => calls_ofExcept _ _) _) fun _ => ?_
    refine within_queue hp ?_ fun cs hcs => Calls.bind (within_transaction ha hcs) fun _ => trivial
    intro k fields
    simp [lifetime, Use.allows]
  | getMap key =>
    refine within_guard (u := .reads) fun ha => within_key hp fun k hk => ?_
    refine Calls.bind (within_pipeline ha (fits_single hk (by simp [Use.allows, KeyCmd.reads]))) fun results => ?_
    split <;> trivial
  | getMapField key field =>
    refine within_guard (u := .reads) fun ha => within_key hp fun k hk => ?_
    refine Calls.bind (within_pipeline ha (fits_single hk (by simp [Use.allows, KeyCmd.reads]))) fun results => ?_
    split <;> trivial
  | setMap key body =>
    refine within_guard (u := .writes) fun ha => Calls.ofExcept_bind fun _ _ => within_key hp fun k hk => ?_
    exact Calls.bind (within_transaction ha (fits_single hk (by simp [lifetime, Use.allows]))) fun _ => trivial
  | touchMap key body => exact within_guard (u := .writes) fun ha => within_key hp fun k hk => within_touchKey ha hk
  | setMapField key field body =>
    refine within_guard (u := .writes) fun ha => Calls.ofExcept_bind fun _ _ => within_key hp fun k hk => ?_
    dsimp only
    split
    · exact Calls.bind (within_transaction ha (fits_single hk (by simp [Use.allows]))) fun _ => trivial
    · exact Calls.bind (within_pipeline ha (fits_single hk (by simp [Use.allows]))) fun _ => trivial
  | deleteMap key => exact within_guard (u := .writes) fun ha => within_deleteKey hp ha
  | deleteMapField key field =>
    refine within_guard (u := .writes) fun ha => within_key hp fun k hk => ?_
    refine Calls.bind (within_redis ha hk rfl) fun deleted => ?_
    split <;> trivial

end MapOp

end Redgw
