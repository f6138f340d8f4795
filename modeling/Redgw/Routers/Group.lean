import Redgw.Footprint
import Redgw.Route

/-! # Sets: `/ns/{ns}/group/{key}` -/

namespace Redgw
open Redis

variable (st : Settings) (client : ClientInfo)

def batchGetGroup (ns : String) (body : BatchGetRequest) : Handler Json := do
  requireRead client ns
  let redisKeys ← buildKeys st ns groupPrefix body.keys
  let results ← pipeline (redisKeys.map fun rk => (rk, .smembers))
  let values := Dict.ofList (((body.keys.zip results).filter fun x => x.2.truthy).map fun x => (x.1, x.2.sorted))
  return ok (.obj [("values", .obj values.items), ("count", .int values.length)]) ns "batch" "set"

def batchAddGroup (ns : String) (body : GroupBatchAddRequest) : Handler Json := do
  requireWrite client ns
  body.items.items.forM fun x => x.2.forM fun m => checkValueSize st m "Member"
  let ttl := resolveTtl st body.ttl
  let queued ← queueItems st ns groupPrefix body.items.items fun redisKey members =>
    [(redisKey, .sadd members), lifetime redisKey ttl]
  let _ ← transaction queued
  return ok (.obj [("stored", .int body.items.length)]) ns "batch" "set"

def addGroup (ns key : String) (body : GroupAddRequest) : Handler Json := do
  requireWrite client ns
  body.members.forM fun m => checkValueSize st m "Member"
  let redisKey ← buildKey st.engine ns groupPrefix key
  let ttl := resolveTtl st body.ttl
  let results ← pipeline [(redisKey, .sadd body.members), lifetime redisKey ttl, (redisKey, .ttl)]
  return ok (.obj [("added", first results)]) ns key "set" (normalizedTtl (last results))

def membersGroup (ns key : String) : Handler Json := do
  requireRead client ns
  let redisKey ← buildKey st.engine ns groupPrefix key
  let members ← redis redisKey .smembers
  return ok (.obj [("members", members.sorted)]) ns key "set"

def containsGroup (ns key member : String) : Handler Json := do
  requireRead client ns
  let redisKey ← buildKey st.engine ns groupPrefix key
  let there ← redis redisKey (.sismember member)
  return ok (.obj [("member", .str member), ("exists", .bool there.truthy)]) ns key "set"

def deleteGroup (ns key : String) : Handler Json := do
  requireWrite client ns
  deleteKey st ns groupPrefix key "set"

def removeGroup (ns key member : String) : Handler Json := do
  requireWrite client ns
  let redisKey ← buildKey st.engine ns groupPrefix key
  let removed ← redis redisKey (.srem member)
  if !removed.truthy then
    throw (error "MEMBER_NOT_FOUND" s!"Member '{member}' not found in group '{key}'" 404)
  return ok (.obj [("removed", .bool true), ("member", .str member)]) ns key "set"

def countGroup (ns key : String) : Handler Json := do
  requireRead client ns
  let redisKey ← buildKey st.engine ns groupPrefix key
  let count ← redis redisKey .scard
  return ok (.obj [("count", count)]) ns key "set"

def touchGroup (ns key : String) (body : TtlSetRequest) : Handler Json := do
  requireWrite client ns
  let redisKey ← buildKey st.engine ns groupPrefix key
  touchKey redisKey body.ttl ns key "set"

inductive SetOp
  | inter
  | union
  | diff
deriving DecidableEq

def SetOp.name : SetOp → String
  | .inter => "inter"
  | .union => "union"
  | .diff => "diff"

def SetOp.fn : SetOp → GatherCmd
  | .inter => .sinter
  | .union => .sunion
  | .diff => .sdiff

/-- `_set_op`: the body of the three set operations. -/
def setOp (op : SetOp) (ns : String) (keys : List String) : Handler Json := do
  requireRead client ns
  let redisKeys ← buildKeys st ns groupPrefix keys
  let result ← gather op.fn redisKeys
  return ok (.obj [("members", result.sorted)]) ns s!"ops:{op.name}" "set"

def interGroups (ns : String) (body : GroupOpsRequest) : Handler Json := setOp st client .inter ns body.keys

def unionGroups (ns : String) (body : GroupOpsRequest) : Handler Json := setOp st client .union ns body.keys

def diffGroups (ns : String) (body : GroupOpsRequest) : Handler Json := setOp st client .diff ns body.keys

/-! ### Requests -/

open Prog

def groupRoutes : List Route :=
  [.underNs .POST [.lit "group", .lit "batch"],
   .underNs .PUT [.lit "group", .lit "batch"],
   .underNs .POST [.lit "group", .param "key"],
   .underNs .GET [.lit "group", .param "key"],
   .underNs .GET [.lit "group", .param "key", .lit "contains", .param "member"],
   .underNs .DELETE [.lit "group", .param "key"],
   .underNs .DELETE [.lit "group", .param "key", .param "member"],
   .underNs .GET [.lit "group", .param "key", .lit "count"],
   .underNs .PUT [.lit "group", .param "key", .lit "touch"],
   .underNs .POST [.lit "group", .lit "ops", .lit "inter"],
   .underNs .POST [.lit "group", .lit "ops", .lit "union"],
   .underNs .POST [.lit "group", .lit "ops", .lit "diff"]]

inductive GroupOp
  | batchGetGroup (body : BatchGetRequest)
  | batchAddGroup (body : GroupBatchAddRequest)
  | addGroup (key : String) (body : GroupAddRequest)
  | membersGroup (key : String)
  | containsGroup (key member : String)
  | deleteGroup (key : String)
  | removeGroup (key member : String)
  | countGroup (key : String)
  | touchGroup (key : String) (body : TtlSetRequest)
  | interGroups (body : GroupOpsRequest)
  | unionGroups (body : GroupOpsRequest)
  | diffGroups (body : GroupOpsRequest)

namespace GroupOp

def route : GroupOp → Route
  | batchGetGroup _ => .underNs .POST [.lit "group", .lit "batch"]
  | batchAddGroup _ => .underNs .PUT [.lit "group", .lit "batch"]
  | addGroup _ _ => .underNs .POST [.lit "group", .param "key"]
  | membersGroup _ => .underNs .GET [.lit "group", .param "key"]
  | containsGroup _ _ => .underNs .GET [.lit "group", .param "key", .lit "contains", .param "member"]
  | deleteGroup _ => .underNs .DELETE [.lit "group", .param "key"]
  | removeGroup _ _ => .underNs .DELETE [.lit "group", .param "key", .param "member"]
  | countGroup _ => .underNs .GET [.lit "group", .param "key", .lit "count"]
  | touchGroup _ _ => .underNs .PUT [.lit "group", .param "key", .lit "touch"]
  | interGroups _ => .underNs .POST [.lit "group", .lit "ops", .lit "inter"]
  | unionGroups _ => .underNs .POST [.lit "group", .lit "ops", .lit "union"]
  | diffGroups _ => .underNs .POST [.lit "group", .lit "ops", .lit "diff"]

def args : GroupOp → List String
  | batchGetGroup _ | batchAddGroup _ | interGroups _ | unionGroups _ | diffGroups _ => []
  | addGroup key _ | membersGroup key | deleteGroup key | countGroup key | touchGroup key _ => [key]
  | containsGroup key member | removeGroup key member => [key, member]

def valid : GroupOp → Bool
  | batchGetGroup body => body.valid
  | batchAddGroup body => body.valid
  | addGroup _ body => body.valid
  | touchGroup _ body => body.valid
  | interGroups body | unionGroups body | diffGroups body => body.valid
  | membersGroup _ | containsGroup _ _ | deleteGroup _ | removeGroup _ _ | countGroup _ => true

def handle (ns : String) : GroupOp → Handler Json
  | batchGetGroup body => Redgw.batchGetGroup st client ns body
  | batchAddGroup body => Redgw.batchAddGroup st client ns body
  | addGroup key body => Redgw.addGroup st client ns key body
  | membersGroup key => Redgw.membersGroup st client ns key
  | containsGroup key member => Redgw.containsGroup st client ns key member
  | deleteGroup key => Redgw.deleteGroup st client ns key
  | removeGroup key member => Redgw.removeGroup st client ns key member
  | countGroup key => Redgw.countGroup st client ns key
  | touchGroup key body => Redgw.touchGroup st client ns key body
  | interGroups body => Redgw.interGroups st client ns body
  | unionGroups body => Redgw.unionGroups st client ns body
  | diffGroups body => Redgw.diffGroups st client ns body

def use : GroupOp → Use
  | batchAddGroup _ | addGroup _ _ | deleteGroup _ | removeGroup _ _ | touchGroup _ _ => .writes
  | _ => .reads

variable {st : Settings} {client : ClientInfo}

theorem route_mem (o : GroupOp) : o.route ∈ groupRoutes := by
  cases o <;> simp [route, groupRoutes]

theorem within_setOp (op : SetOp) (ns : String) (keys : List String) :
    (setOp st client op ns keys).Calls (Within st client ns .reads) := by
  refine within_guard (u := .reads) fun ha => within_keys (by decide) fun ks hks => ?_
  exact Calls.bind (within_gather ha hks) fun _ => trivial

theorem within (ns : String) (o : GroupOp) : (o.handle st client ns).Calls (Within st client ns o.use) := by
  have hp : groupPrefix ∈ storagePrefixes := by decide
  cases o with
  | batchGetGroup body =>
    refine within_guard (u := .reads) fun ha => within_keys hp fun ks hks => ?_
    exact Calls.bind (within_pipeline ha (fits_map hks rfl)) fun _ => trivial
  | batchAddGroup body =>
    refine within_guard (u := .writes) fun ha => ?_
    refine Calls.bind (Calls.forM (fun x => Calls.forM (fun m => calls_ofExcept _ _) _) _) fun _ => ?_
    refine within_queue hp ?_ fun cs hcs => Calls.bind (within_transaction ha hcs) fun _ => trivial
    intro k members
    simp [lifetime, Use.allows]
  | addGroup key body =>
    refine within_guard (u := .writes) fun ha => Calls.bind (Calls.forM (fun x => calls_ofExcept _ _) _) fun _ => ?_
    refine within_key hp fun k hk => ?_
    exact Calls.bind (within_pipeline ha (fits_single hk (by simp [lifetime, Use.allows]))) fun _ => trivial
  | membersGroup key =>
    refine within_guard (u := .reads) fun ha => within_key hp fun k hk => ?_
    exact Calls.bind (within_redis ha hk rfl) fun _ => trivial
  | containsGroup key member =>
    refine within_guard (u := .reads) fun ha => within_key hp fun k hk => ?_
    exact Calls.bind (within_redis ha hk rfl) fun _ => trivial
  | deleteGroup key => exact within_guard (u := .writes) fun ha => within_deleteKey hp ha
  | removeGroup key member =>
    refine within_guard (u := .writes) fun ha => within_key hp fun k hk => ?_
    refine Calls.bind (within_redis ha hk rfl) fun removed => ?_
    split <;> trivial
  | countGroup key =>
    refine within_guard (u := .reads) fun ha => within_key hp fun k hk => ?_
    exact Calls.bind (within_redis ha hk rfl) fun _ => trivial
  | touchGroup key body => exact within_guard (u := .writes) fun ha => within_key hp fun k hk => within_touchKey ha hk
  | interGroups body => exact within_setOp .inter ns body.keys
  | unionGroups body => exact within_setOp .union ns body.keys
  | diffGroups body => exact within_setOp .diff ns body.keys

end GroupOp

end Redgw
