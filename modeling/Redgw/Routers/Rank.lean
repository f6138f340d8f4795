import Redgw.Footprint
import Redgw.Route

/-! # Sorted sets: `/ns/{ns}/rank/{key}` -/

namespace Redgw
open Redis

/-- `{"member": m, "score": s}` for a pair of a reply. -/
def memberScore (pair : Json) : Json := .obj [("member", pair.nth 0), ("score", pair.nth 1)]

def memberScores (result : Json) : Json := .arr (result.items.map memberScore)

variable (st : Settings) (client : ClientInfo)

def batchGetRank (ns : String) (body : RankBatchGetRequest) : Handler Json := do
  requireRead client ns
  let redisKeys ← buildKeys st ns rankPrefix body.keys
  let results ← pipeline (redisKeys.map fun rk => (rk, .zrange body.start body.stop body.reverse))
  let values := Dict.ofList (((body.keys.zip results).filter fun x => x.2.truthy).map fun x => (x.1, memberScores x.2))
  return ok (.obj [("values", .obj values.items), ("count", .int values.length)]) ns "batch" "zset"

def batchAddRank (ns key : String) (body : RankBatchAddRequest) : Handler Json := do
  requireWrite client ns
  body.members.forM fun item => do
    checkValueSize st item.1 "Member"
    if !item.2.isfinite then
      throw (error "INVALID_VALUE" "Score must be a finite number (nan/inf rejected)")
  let redisKey ← buildKey st.engine ns rankPrefix key
  let mapping := Dict.ofList body.members
  let ttl := resolveTtl st body.ttl
  let results ← exceptResponseError
    (pipeline [(redisKey, .zadd mapping.items), lifetime redisKey ttl, (redisKey, .ttl)]) fun _ =>
      throw (error "INVALID_VALUE" "Score is not a valid number (nan)")
  return ok (.obj [("added", first results), ("total", .int body.members.length)]) ns key "zset"
    (normalizedTtl (last results))

def addRank (ns key : String) (body : RankAddRequest) : Handler Json := do
  requireWrite client ns
  checkValueSize st body.member "Member"
  if !body.score.isfinite then
    throw (error "INVALID_VALUE" "Score must be a finite number (nan/inf rejected)")
  let redisKey ← buildKey st.engine ns rankPrefix key
  let ttl := resolveTtl st body.ttl
  let results ← exceptResponseError
    (pipeline [(redisKey, .zadd [(body.member, body.score)]), lifetime redisKey ttl, (redisKey, .ttl)]) fun _ =>
      throw (error "INVALID_VALUE" "Score is not a valid number (nan)")
  return ok (.obj [("added", first results), ("member", .str body.member), ("score", .float body.score)]) ns key "zset"
    (normalizedTtl (last results))

def rangeRank (ns key : String) (start stop : Int) (reverse : Bool) : Handler Json := do
  requireRead client ns
  let redisKey ← buildKey st.engine ns rankPrefix key
  let results ← redis redisKey (.zrange start stop reverse)
  let members := memberScores results
  return ok (.obj [("members", members), ("count", .int members.len)]) ns key "zset"

def scoreRank (ns key member : String) : Handler Json := do
  requireRead client ns
  let redisKey ← buildKey st.engine ns rankPrefix key
  let score ← redis redisKey (.zscore member)
  if score.isNone then
    throw (error "MEMBER_NOT_FOUND" s!"Member '{member}' not found in rank '{key}'" 404)
  return ok (.obj [("member", .str member), ("score", score)]) ns key "zset"

def betweenRank (ns key : String) (min max : Score) : Handler Json := do
  requireRead client ns
  let redisKey ← buildKey st.engine ns rankPrefix key
  let results ← exceptResponseError (redis redisKey (.zrangebyscore min max)) fun _ =>
    throw (error "INVALID_VALUE" "Score range bound is not a valid number (nan)")
  let members := memberScores results
  return ok (.obj [("members", members), ("count", .int members.len)]) ns key "zset"

def deleteRank (ns key : String) : Handler Json := do
  requireWrite client ns
  deleteKey st ns rankPrefix key "zset"

def removeRank (ns key member : String) : Handler Json := do
  requireWrite client ns
  let redisKey ← buildKey st.engine ns rankPrefix key
  let removed ← redis redisKey (.zrem member)
  if !removed.truthy then
    throw (error "MEMBER_NOT_FOUND" s!"Member '{member}' not found in rank '{key}'" 404)
  return ok (.obj [("removed", .bool true), ("member", .str member)]) ns key "zset"

def incrRank (ns key : String) (body : RankIncrRequest) : Handler Json := do
  requireWrite client ns
  checkValueSize st body.member "Member"
  if !body.delta.isfinite then
    throw (error "INVALID_VALUE" "Delta must be a finite number (nan/inf rejected)")
  let redisKey ← buildKey st.engine ns rankPrefix key
  let results ← exceptResponseError
    (pipeline [(redisKey, .zincrby body.delta body.member), (redisKey, .ttl)]) fun _ =>
      throw (error "INVALID_VALUE" "Resulting score is not a number (nan) or out of range")
  return ok (.obj [("member", .str body.member), ("score", first results)]) ns key "zset"
    (normalizedTtl (last results))

def touchRank (ns key : String) (body : TtlSetRequest) : Handler Json := do
  requireWrite client ns
  let redisKey ← buildKey st.engine ns rankPrefix key
  touchKey redisKey body.ttl ns key "zset"

def popRank (ns key : String) (max : Bool) : Handler Json := do
  requireWrite client ns
  let redisKey ← buildKey st.engine ns rankPrefix key
  let result ← redis redisKey (.zpop max)
  if !result.truthy then
    throw (error "RANK_EMPTY" s!"Rank '{key}' is empty" 404)
  return ok (memberScore (result.nth 0)) ns key "zset"

/-! ### Requests -/

open Prog

def rankRoutes : List Route :=
  [.underNs .POST [.lit "rank", .lit "batch"],
   .underNs .POST [.lit "rank", .param "key", .lit "batch"],
   .underNs .POST [.lit "rank", .param "key"],
   .underNs .GET [.lit "rank", .param "key"],
   .underNs .GET [.lit "rank", .param "key", .lit "score", .param "member"],
   .underNs .GET [.lit "rank", .param "key", .lit "between"],
   .underNs .DELETE [.lit "rank", .param "key"],
   .underNs .DELETE [.lit "rank", .param "key", .param "member"],
   .underNs .POST [.lit "rank", .param "key", .lit "incr"],
   .underNs .PUT [.lit "rank", .param "key", .lit "touch"],
   .underNs .GET [.lit "rank", .param "key", .lit "pop"]]

inductive RankOp
  | batchGetRank (body : RankBatchGetRequest)
  | batchAddRank (key : String) (body : RankBatchAddRequest)
  | addRank (key : String) (body : RankAddRequest)
  | rangeRank (key : String) (start stop : Int) (reverse : Bool)
  | scoreRank (key member : String)
  | betweenRank (key : String) (min max : Score)
  | deleteRank (key : String)
  | removeRank (key member : String)
  | incrRank (key : String) (body : RankIncrRequest)
  | touchRank (key : String) (body : TtlSetRequest)
  | popRank (key : String) (max : Bool)

namespace RankOp

def route : RankOp → Route
  | batchGetRank _ => .underNs .POST [.lit "rank", .lit "batch"]
  | batchAddRank _ _ => .underNs .POST [.lit "rank", .param "key", .lit "batch"]
  | addRank _ _ => .underNs .POST [.lit "rank", .param "key"]
  | rangeRank _ _ _ _ => .underNs .GET [.lit "rank", .param "key"]
  | scoreRank _ _ => .underNs .GET [.lit "rank", .param "key", .lit "score", .param "member"]
  | betweenRank _ _ _ => .underNs .GET [.lit "rank", .param "key", .lit "between"]
  | deleteRank _ => .underNs .DELETE [.lit "rank", .param "key"]
  | removeRank _ _ => .underNs .DELETE [.lit "rank", .param "key", .param "member"]
  | incrRank _ _ => .underNs .POST [.lit "rank", .param "key", .lit "incr"]
  | touchRank _ _ => .underNs .PUT [.lit "rank", .param "key", .lit "touch"]
  | popRank _ _ => .underNs .GET [.lit "rank", .param "key", .lit "pop"]

def args : RankOp → List String
  | batchGetRank _ => []
  | batchAddRank key _ | addRank key _ | rangeRank key _ _ _ | betweenRank key _ _ | deleteRank key | incrRank key _
  | touchRank key _ | popRank key _ => [key]
  | scoreRank key member | removeRank key member => [key, member]

def valid : RankOp → Bool
  | batchGetRank body => body.valid
  | batchAddRank _ body => body.valid
  | addRank _ body => body.valid
  | incrRank _ body => body.valid
  | touchRank _ body => body.valid
  | rangeRank _ _ _ _ | scoreRank _ _ | betweenRank _ _ _ | deleteRank _ | removeRank _ _ | popRank _ _ => true

def handle (ns : String) : RankOp → Handler Json
  | batchGetRank body => Redgw.batchGetRank st client ns body
  | batchAddRank key body => Redgw.batchAddRank st client ns key body
  | addRank key body => Redgw.addRank st client ns key body
  | rangeRank key start stop reverse => Redgw.rangeRank st client ns key start stop reverse
  | scoreRank key member => Redgw.scoreRank st client ns key member
  | betweenRank key min max => Redgw.betweenRank st client ns key min max
  | deleteRank key => Redgw.deleteRank st client ns key
  | removeRank key member => Redgw.removeRank st client ns key member
  | incrRank key body => Redgw.incrRank st client ns key body
  | touchRank key body => Redgw.touchRank st client ns key body
  | popRank key max => Redgw.popRank st client ns key max

def use : RankOp → Use
  | batchGetRank _ | rangeRank _ _ _ _ | scoreRank _ _ | betweenRank _ _ _ => .reads
  | _ => .writes

variable {st : Settings} {client : ClientInfo}

theorem route_mem (o : RankOp) : o.route ∈ rankRoutes := by
  cases o <;> simp [route, rankRoutes]

theorem within (ns : String) (o : RankOp) : (o.handle st client ns).Calls (Within st client ns o.use) := by
  have hp : rankPrefix ∈ storagePrefixes := by decide
  cases o with
  | batchGetRank body =>
    refine within_guard (u := .reads) fun ha => within_keys hp fun ks hks => ?_
    exact Calls.bind (within_pipeline ha (fits_map hks rfl)) fun _ => trivial
  | batchAddRank key body =>
    refine within_guard (u := .writes) fun ha => Calls.bind (Calls.forM (fun item => ?_) _) fun _ => ?_
    · refine Calls.ofExcept_bind fun _ _ => ?_
      cases item.2.isfinite <;> trivial
    · refine within_key hp fun k hk => Calls.bind (within_exceptResponseError ?_ fun _ => trivial) fun _ => trivial
      exact within_pipeline ha (fits_single hk (by simp [lifetime, Use.allows]))
  | addRank key body =>
    refine within_guard (u := .writes) fun ha => Calls.ofExcept_bind fun _ _ => ?_
    cases body.score.isfinite
    · trivial
    · refine within_key hp fun k hk => Calls.bind (within_exceptResponseError ?_ fun _ => trivial) fun _ => trivial
      exact within_pipeline ha (fits_single hk (by simp [lifetime, Use.allows]))
  | rangeRank key start stop reverse =>
    refine within_guard (u := .reads) fun ha => within_key hp fun k hk => ?_
    exact Calls.bind (within_redis ha hk rfl) fun _ => trivial
  | scoreRank key member =>
    refine within_guard (u := .reads) fun ha => within_key hp fun k hk => ?_
    refine Calls.bind (within_redis ha hk rfl) fun score => ?_
    split <;> trivial
  | betweenRank key min max =>
    refine within_guard (u := .reads) fun ha => within_key hp fun k hk => ?_
    exact Calls.bind (within_exceptResponseError (within_redis ha hk rfl) fun _ => trivial) fun _ => trivial
  | deleteRank key => exact within_guard (u := .writes) fun ha => within_deleteKey hp ha
  | removeRank key member =>
    refine within_guard (u := .writes) fun ha => within_key hp fun k hk => ?_
    refine Calls.bind (within_redis ha hk rfl) fun removed => ?_
    split <;> trivial
  | incrRank key body =>
    refine within_guard (u := .writes) fun ha => Calls.ofExcept_bind fun _ _ => ?_
    cases body.delta.isfinite
    · trivial
    · refine within_key hp fun k hk => Calls.bind (within_exceptResponseError ?_ fun _ => trivial) fun _ => trivial
      exact within_pipeline ha (fits_single hk (by simp [Use.allows]))
  | touchRank key body => exact within_guard (u := .writes) fun ha => within_key hp fun k hk => within_touchKey ha hk
  | popRank key max =>
    refine within_guard (u := .writes) fun ha => within_key hp fun k hk => ?_
    refine Calls.bind (within_redis ha hk rfl) fun result => ?_
    split <;> trivial

end RankOp

end Redgw
