import Redgw.Footprint
import Redgw.Route

/-! # Streams: `/ns/{ns}/event/{key}` -/

namespace Redgw
open Redis

/-! ### Stream ids -/

/-- The zeros of the decimal digits of Unicode; each is followed by its nine other digits. -/
def decimalZeros : List Nat :=
  [0x30, 0x660, 0x6f0, 0x7c0, 0x966, 0x9e6, 0xa66, 0xae6, 0xb66, 0xbe6, 0xc66, 0xce6, 0xd66, 0xde6, 0xe50, 0xed0,
   0xf20, 0x1040, 0x1090, 0x17e0, 0x1810, 0x1946, 0x19d0, 0x1a80, 0x1a90, 0x1b50, 0x1bb0, 0x1c40, 0x1c50, 0xa620,
   0xa8d0, 0xa900, 0xa9d0, 0xa9f0, 0xaa50, 0xabf0, 0xff10, 0x104a0, 0x10d30, 0x10d40, 0x11066, 0x110f0, 0x11136,
   0x111d0, 0x112f0, 0x11450, 0x114d0, 0x11650, 0x116c0, 0x116d0, 0x116da, 0x11730, 0x118e0, 0x11950, 0x11bf0,
   0x11c50, 0x11d50, 0x11da0, 0x11f50, 0x16130, 0x16a60, 0x16ac0, 0x16b50, 0x16d70, 0x1ccf0, 0x1d7ce, 0x1d7d8,
   0x1d7e2, 0x1d7ec, 0x1d7f6, 0x1e140, 0x1e2f0, 0x1e4f0, 0x1e5f1, 0x1e950, 0x1fbf0]

/-- `\d` of a regular expression over text. -/
def decimalDigit (c : Char) : Bool := decimalZeros.any fun z => decide (z ≤ c.toNat ∧ c.toNat ≤ z + 9)

/-- `0|\d+-\d+` -/
def streamIdForm (s : List Char) : Bool :=
  s == ['0'] || match Text.cut '-' s with
    | some (a, b) => !a.isEmpty && a.all decimalDigit && !b.isEmpty && b.all decimalDigit
    | none => false

/-- `_STREAM_ID_RE.match`: the final `$` also matches before a newline at the end. -/
def streamIdRe (s : String) : Bool :=
  streamIdForm s.toList || (s.toList.getLast? == some '\n' && streamIdForm s.toList.dropLast)

def invalidStreamId (id : String) : Exn := error "INVALID_STREAM_ID" s!"Invalid stream ID format: '{id}'"

/-- `{"id": eid, "data": data}` for an entry of a reply. -/
def eventOf (entry : Json) : Json := .obj [("id", entry.nth 0), ("data", entry.nth 1)]

/-! ### Handlers -/

variable (st : Settings) (client : ClientInfo)

def batchPublishEvent (ns key : String) (body : EventBatchPublishRequest) : Handler Json := do
  requireWrite client ns
  body.events.forM fun evt => checkDictValuesSize st evt
  let redisKey ← buildKey st.engine ns eventPrefix key
  let maxlen := st.defaults.maxStreamLength
  let ids ← pipeline (body.events.map fun evt => (redisKey, .xadd evt.items maxlen))
  return ok (.obj [("ids", .arr ids), ("count", .int ids.length)]) ns key "stream"

def publishEvent (ns key : String) (body : EventPublishRequest) : Handler Json := do
  requireWrite client ns
  checkDictValuesSize st body.data
  let redisKey ← buildKey st.engine ns eventPrefix key
  let entryId ← redis redisKey (.xadd body.data.items st.defaults.maxStreamLength)
  return ok (.obj [("id", entryId)]) ns key "stream"

def readEvents (ns key lastId : String) (count : Int) : Handler Json := do
  requireRead client ns
  let redisKey ← buildKey st.engine ns eventPrefix key
  if !streamIdRe lastId then
    throw (invalidStreamId lastId)
  let minId := if lastId = "0" then "-" else s!"({lastId}"
  let entries ← redis redisKey (.xrange minId count)
  let events := entries.items.map eventOf
  return ok (.obj [("events", .arr events), ("count", .int events.length)]) ns key "stream"

/-- Reading is enough to create a group, and the stream is created with it. -/
def createGroup (ns key : String) (body : EventGroupCreateRequest) : Handler Json := do
  requireRead client ns
  let redisKey ← buildKey st.engine ns eventPrefix key
  let _ ← exceptResponseError (redis redisKey (.xgroupCreate body.group "0" true)) fun msg =>
    if Text.occurs "BUSYGROUP".toList msg.toList then
      throw (error "GROUP_EXISTS" s!"Consumer group '{body.group}' already exists" 409)
    else throw (error "INTERNAL_ERROR" "Stream operation failed" 500)
  return ok (.obj [("group", .str body.group), ("created", .bool true)]) ns key "stream"

def readGroup (ns key group consumer : String) (count : Int) : Handler Json := do
  requireRead client ns
  let redisKey ← buildKey st.engine ns eventPrefix key
  let results ← exceptResponseError (redis redisKey (.xreadgroup group consumer count)) fun msg =>
    if Text.occurs "NOGROUP".toList msg.toList then
      throw (error "GROUP_NOT_FOUND" s!"Consumer group '{group}' not found" 404)
    else throw (error "INTERNAL_ERROR" "Stream operation failed" 500)
  let events := (results.items.flatMap fun stream => (stream.nth 1).items).map eventOf
  return ok (.obj [("events", .arr events), ("count", .int events.length), ("consumer", .str consumer)]) ns key "stream"

def ackEvents (ns key group : String) (body : EventAckRequest) : Handler Json := do
  requireRead client ns
  body.ids.forM fun sid => if !streamIdRe sid then throw (invalidStreamId sid) else pure ()
  let redisKey ← buildKey st.engine ns eventPrefix key
  let acked ← redis redisKey (.xack group body.ids)
  return ok (.obj [("acked", acked)]) ns key "stream"

def deleteEvent (ns key : String) : Handler Json := do
  requireWrite client ns
  deleteKey st ns eventPrefix key "stream"

def touchEvent (ns key : String) (body : TtlSetRequest) : Handler Json := do
  requireWrite client ns
  let redisKey ← buildKey st.engine ns eventPrefix key
  touchKey redisKey body.ttl ns key "stream"

def streamInfo (ns key : String) : Handler Json := do
  requireRead client ns
  let redisKey ← buildKey st.engine ns eventPrefix key
  let info ← exceptResponseError (redis redisKey .xinfoStream) fun _ =>
    throw (error "KEY_NOT_FOUND" s!"Stream '{key}' not found in namespace '{ns}'" 404)
  let groupsInfo ← exceptResponseError (redis redisKey .xinfoGroups) fun _ => pure (.arr [])
  let groups := groupsInfo.items.map fun g =>
    .obj [("name", g.field "name"), ("consumers", g.field "consumers"), ("pending", g.field "pending")]
  return ok (.obj [("length", info.field "length"), ("first_entry", info.field "first-entry"),
    ("last_entry", info.field "last-entry"), ("groups", .arr groups)]) ns key "stream"

/-! ### Requests -/

open Prog

def eventRoutes : List Route :=
  [.underNs .POST [.lit "event", .param "key", .lit "batch"],
   .underNs .POST [.lit "event", .param "key"],
   .underNs .GET [.lit "event", .param "key"],
   .underNs .POST [.lit "event", .param "key", .lit "group"],
   .underNs .GET [.lit "event", .param "key", .lit "group", .param "group", .lit "read"],
   .underNs .POST [.lit "event", .param "key", .lit "group", .param "group", .lit "ack"],
   .underNs .DELETE [.lit "event", .param "key"],
   .underNs .PUT [.lit "event", .param "key", .lit "touch"],
   .underNs .GET [.lit "event", .param "key", .lit "info"]]

inductive EventOp
  | batchPublishEvent (key : String) (body : EventBatchPublishRequest)
  | publishEvent (key : String) (body : EventPublishRequest)
  | readEvents (key lastId : String) (count : Int)
  | createGroup (key : String) (body : EventGroupCreateRequest)
  | readGroup (key group consumer : String) (count : Int)
  | ackEvents (key group : String) (body : EventAckRequest)
  | deleteEvent (key : String)
  | touchEvent (key : String) (body : TtlSetRequest)
  | streamInfo (key : String)

namespace EventOp

def route : EventOp → Route
  | batchPublishEvent _ _ => .underNs .POST [.lit "event", .param "key", .lit "batch"]
  | publishEvent _ _ => .underNs .POST [.lit "event", .param "key"]
  | readEvents _ _ _ => .underNs .GET [.lit "event", .param "key"]
  | createGroup _ _ => .underNs .POST [.lit "event", .param "key", .lit "group"]
  | readGroup _ _ _ _ => .underNs .GET [.lit "event", .param "key", .lit "group", .param "group", .lit "read"]
  | ackEvents _ _ _ => .underNs .POST [.lit "event", .param "key", .lit "group", .param "group", .lit "ack"]
  | deleteEvent _ => .underNs .DELETE [.lit "event", .param "key"]
  | touchEvent _ _ => .underNs .PUT [.lit "event", .param "key", .lit "touch"]
  | streamInfo _ => .underNs .GET [.lit "event", .param "key", .lit "info"]

def args : EventOp → List String
  | batchPublishEvent key _ | publishEvent key _ | readEvents key _ _ | createGroup key _ | deleteEvent key
  | touchEvent key _ | streamInfo key => [key]
  | readGroup key group _ _ | ackEvents key group _ => [key, group]

def valid : EventOp → Bool
  | batchPublishEvent _ body => body.valid
  | publishEvent _ body => body.valid
  | readEvents _ _ count | readGroup _ _ _ count => countInRange count
  | createGroup _ body => body.valid
  | ackEvents _ _ body => body.valid
  | touchEvent _ body => body.valid
  | deleteEvent _ | streamInfo _ => true

def handle (ns : String) : EventOp → Handler Json
  | batchPublishEvent key body => Redgw.batchPublishEvent st client ns key body
  | publishEvent key body => Redgw.publishEvent st client ns key body
  | readEvents key lastId count => Redgw.readEvents st client ns key lastId count
  | createGroup key body => Redgw.createGroup st client ns key body
  | readGroup key group consumer count => Redgw.readGroup st client ns key group consumer count
  | ackEvents key group body => Redgw.ackEvents st client ns key group body
  | deleteEvent key => Redgw.deleteEvent st client ns key
  | touchEvent key body => Redgw.touchEvent st client ns key body
  | streamInfo key => Redgw.streamInfo st client ns key

def use : EventOp → Use
  | readEvents _ _ _ | streamInfo _ => .reads
  | readGroup _ _ _ _ | ackEvents _ _ _ => .books
  | createGroup _ _ => .creates
  | _ => .writes

variable {st : Settings} {client : ClientInfo}

theorem route_mem (o : EventOp) : o.route ∈ eventRoutes := by
  cases o <;> simp [route, eventRoutes]

theorem within (ns : String) (o : EventOp) : (o.handle st client ns).Calls (Within st client ns o.use) := by
  have hp : eventPrefix ∈ storagePrefixes := by decide
  cases o with
  | batchPublishEvent key body =>
    refine within_guard (u := .writes) fun ha => Calls.bind (Calls.forM (fun x => calls_ofExcept _ _) _) fun _ => ?_
    refine within_key hp fun k hk => Calls.bind (within_pipeline ha (fits_single hk ?_)) fun _ => trivial
    simp [Use.allows]
  | publishEvent key body =>
    refine within_guard (u := .writes) fun ha => Calls.ofExcept_bind fun _ _ => within_key hp fun k hk => ?_
    exact Calls.bind (within_redis ha hk rfl) fun _ => trivial
  | readEvents key lastId count =>
    refine within_guard (u := .reads) fun ha => within_key hp fun k hk => ?_
    cases streamIdRe lastId
    · trivial
    · exact Calls.bind (within_redis ha hk rfl) fun _ => trivial
  | createGroup key body =>
    refine within_guard (u := .creates) fun ha => within_key hp fun k hk => ?_
    refine Calls.bind (within_exceptResponseError (within_redis ha hk rfl) fun msg => ?_) fun _ => trivial
    split <;> trivial
  | readGroup key group consumer count =>
    refine within_guard (u := .books) fun ha => within_key hp fun k hk => ?_
    refine Calls.bind (within_exceptResponseError (within_redis ha hk rfl) fun msg => ?_) fun _ => trivial
    split <;> trivial
  | ackEvents key group body =>
    refine within_guard (u := .books) fun ha => Calls.bind (Calls.forM (fun sid => ?_) _) fun _ => ?_
    · split <;> trivial
    · refine within_key hp fun k hk => ?_
      exact Calls.bind (within_redis ha hk rfl) fun _ => trivial
  | deleteEvent key => exact within_guard (u := .writes) fun ha => within_deleteKey hp ha
  | touchEvent key body => exact within_guard (u := .writes) fun ha => within_key hp fun k hk => within_touchKey ha hk
  | streamInfo key =>
    refine within_guard (u := .reads) fun ha => within_key hp fun k hk => ?_
    refine Calls.bind (within_exceptResponseError (within_redis ha hk rfl) fun _ => trivial) fun _ => ?_
    exact Calls.bind (within_exceptResponseError (within_redis ha hk rfl) fun _ => trivial) fun _ => trivial

end EventOp

end Redgw
