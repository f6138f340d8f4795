import Redgw.Api

/-! # Plans

Most requests check what they are given, send a few commands, and make their answer of the replies. A
plan is what such a request does once its client may do it: the commands, how they are sent, and what
becomes of the replies. -/

namespace Redgw
open Redis Prog

inductive Sending
  /-- Each command is awaited; an error is the end. -/
  | oneByOne
  | pipeline
  | transaction

/-- Where the TTL of an answer comes from. -/
inductive Filled
  | default
  | computed (ttl : Int)
  /-- The last reply, with the code of a missing key replaced. -/
  | normalized
  | raw

def Filled.fill (vs : List Json) : Filled → Json
  | default => .int (-1)
  | computed ttl => .int ttl
  | normalized => normalizedTtl (last vs)
  | raw => last vs

structure Plan where
  sending : Sending
  commands : List (String × KeyCmd)
  onError : String → Exn := .redis
  data : List Json → Except Exn Json
  key : String
  type : String
  ttl : Filled := .default

/-- The values that were answered, or the first error. -/
def replies : List Reply → Except String (List Json)
  | [] => .ok []
  | .error msg :: _ => .error msg
  | .ok v :: rs => (replies rs).map (v :: ·)

def sendOneByOne : List (String × KeyCmd) → Handler (Except String (List Json))
  | [] => .pure (.ok [])
  | (key, c) :: cs => (Prog.ask (Call.redis (.at key c)) : Handler Reply).bind fun
    | .error msg => .pure (.error msg)
    | .ok v => (sendOneByOne cs).bind fun r => .pure (r.map (v :: ·))

namespace Plan

def send (p : Plan) : Handler (Except String (List Json)) :=
  match p.sending with
  | .oneByOne => sendOneByOne p.commands
  | .pipeline => (sendAll p.commands).bind fun rs => .pure (replies rs)
  | .transaction => (Prog.ask (.redis (.multi p.commands))).bind fun rs => .pure (replies rs)

def answer (ns : String) (p : Plan) : Except String (List Json) → Except Exn Json
  | .error msg => .error (p.onError msg)
  | .ok vs => (p.data vs).map fun d => ok d ns p.key p.type (p.ttl.fill vs)

def program (ns : String) (p : Plan) : Handler Json := p.send.bind fun r => Prog.ofExcept (p.answer ns r)

end Plan

/-- The plan that deletes a key. -/
def deletePlan (st : Settings) (ns typePrefix key typeName : String) : Except Exn Plan := do
  let k ← buildKey st.engine ns typePrefix key
  return {
    sending := .oneByOne, commands := [(k, .del)], key := key, type := typeName
    data := fun vs => if !(first vs).truthy then .error (notFound key ns) else .ok (.obj [("deleted", .bool true)]) }

def touchPlan (st : Settings) (ns typePrefix key typeName : String) (body : TtlSetRequest) : Except Exn Plan := do
  let k ← buildKey st.engine ns typePrefix key
  return {
    sending := .pipeline, commands := [(k, .exists), lifetime k body.ttl, (k, .ttl)], key := key, type := typeName, ttl := .raw
    data := fun vs =>
      if !(first vs).truthy || (last vs).isInt (-2) then .error (notFound key ns) else .ok (.obj [("touched", .bool true)]) }

/-- The permission that a request needs, and its plan; some requests have no plan. -/
abbrev Planned := Option (String × Except Exn Plan)

section Tables
variable (st : Settings) (ns : String)

def KvOp.plan : KvOp → Planned
  | batchGetKv _ => none
  | batchSetKv body => some ("write", do
    body.items.items.forM fun x => checkValueSize st x.2 s!"Key '{x.1}'"
    let ttl := resolveTtl st body.ttl
    let queued ← queueItems st ns kvPrefix body.items.items fun redisKey value =>
      [(redisKey, if 0 < ttl then .setex ttl value else .set value none false)]
    return {
      sending := .transaction, commands := queued, key := "batch", type := "string"
      data := fun _ => .ok (.obj [("stored", .int body.items.length)]) })
  | getKv key => some ("read", do
    let k ← buildKey st.engine ns kvPrefix key
    return {
      sending := .pipeline, commands := [(k, .get), (k, .ttl)], key := key, type := "string", ttl := .normalized
      data := fun vs => if (first vs).isNone then .error (notFound key ns) else .ok (.obj [("value", first vs)]) })
  | setKv key body => some ("write", do
    checkValueSize st body.value
    let k ← buildKey st.engine ns kvPrefix key
    let ttl := resolveTtl st body.ttl
    return {
      sending := .oneByOne, commands := [(k, if 0 < ttl then .setex ttl body.value else .set body.value none false)]
      key := key, type := "string", ttl := .computed (if 0 < ttl then ttl else -1)
      data := fun _ => .ok (.obj [("value", .str body.value)]) })
  | deleteKv key => some ("write", deletePlan st ns kvPrefix key "string")
  | existsKv key => some ("read", do
    let k ← buildKey st.engine ns kvPrefix key
    return {
      sending := .oneByOne, commands := [(k, .exists)], key := key, type := "string"
      data := fun vs => .ok (.obj [("exists", .bool (first vs).truthy)]) })
  | incrKv key body => some ("write", do
    let k ← buildKey st.engine ns kvPrefix key
    return {
      sending := .pipeline, commands := [(k, .incrby body.delta), (k, .ttl)], key := key, type := "string", ttl := .normalized
      onError := fun _ => error "INVALID_VALUE" "Existing value is not an integer or the increment is out of int64 range"
      data := fun vs => .ok (.obj [("value", .str (first vs).pyStr)]) })
  | touchKv key body => some ("write", touchPlan st ns kvPrefix key "string" body)
  | setKvNx key body => some ("write", do
    let k ← buildKey st.engine ns kvPrefix key
    let ttl := resolveTtl st body.ttl
    return {
      sending := .oneByOne, commands := [(k, if 0 < ttl then .set body.value (some ttl) true else .set body.value none true)]
      key := key, type := "string", ttl := .computed (if 0 < ttl then ttl else -1)
      data := fun vs =>
        if !(first vs).truthy then .error (error "KEY_EXISTS" s!"Key '{key}' already exists in namespace '{ns}'" 409)
        else .ok (.obj [("acquired", .bool true), ("value", .str body.value)]) })

def MapOp.plan : MapOp → Planned
  | batchGetMap body => some ("read", do
    let redisKeys ← buildKeys st ns mapPrefix body.keys
    return {
      sending := .pipeline, commands := redisKeys.map fun rk => (rk, .hgetall), key := "batch", type := "hash"
      data := fun vs =>
        let values := Dict.ofList ((body.keys.zip vs).filter fun x => x.2.truthy)
        .ok (.obj [("values", .obj values.items), ("count", .int values.length)]) })
  | batchSetMap body => some ("write", do
    body.items.items.forM fun x => checkDictValuesSize st x.2
    let ttl := resolveTtl st body.ttl
    let queued ← queueItems st ns mapPrefix body.items.items fun redisKey fields =>
      [(redisKey, .hset fields.items), lifetime redisKey ttl]
    return {
      sending := .transaction, commands := queued, key := "batch", type := "hash"
      data := fun _ => .ok (.obj [("stored", .int body.items.length)]) })
  | getMap key => some ("read", do
    let k ← buildKey st.engine ns mapPrefix key
    return {
      sending := .pipeline, commands := [(k, .hgetall), (k, .ttl)], key := key, type := "hash", ttl := .normalized
      data := fun vs => if !(first vs).truthy then .error (notFound key ns) else .ok (.obj [("fields", first vs)]) })
  | getMapField key field => some ("read", do
    let k ← buildKey st.engine ns mapPrefix key
    return {
      sending := .pipeline, commands := [(k, .hget field), (k, .ttl)], key := key, type := "hash", ttl := .normalized
      data := fun vs =>
        if (first vs).isNone then .error (error "FIELD_NOT_FOUND" s!"Field '{field}' not found in key '{key}'" 404)
        else .ok (.obj [("field", .str field), ("value", first vs)]) })
  | setMap key body => some ("write", do
    checkDictValuesSize st body.fields
    let k ← buildKey st.engine ns mapPrefix key
    let ttl := resolveTtl st body.ttl
    return {
      sending := .transaction, commands := [(k, .hset body.fields.items), lifetime k ttl, (k, .ttl)]
      key := key, type := "hash", ttl := .raw
      data := fun _ => .ok (.obj [("fields", .obj (body.fields.items.map fun x => (x.1, .str x.2)))]) })
  | touchMap key body => some ("write", touchPlan st ns mapPrefix key "hash" body)
  | setMapField key field body => some ("write", do
    checkValueSize st body.value
    let k ← buildKey st.engine ns mapPrefix key
    let ttl := resolveTtl st body.ttl
    return {
      sending := if 0 < ttl then .transaction else .pipeline
      commands := [(k, .hset [(field, body.value)]), lifetime k ttl, (k, .ttl)]
      key := key, type := "hash", ttl := if 0 < ttl then .raw else .normalized
      data := fun _ => .ok (.obj [("field", .str field), ("value", .str body.value)]) })
  | deleteMap key => some ("write", deletePlan st ns mapPrefix key "hash")
  | deleteMapField key field => some ("write", do
    let k ← buildKey st.engine ns mapPrefix key
    return {
      sending := .oneByOne, commands := [(k, .hdel field)], key := key, type := "hash"
      data := fun vs =>
        if !(first vs).truthy then .error (error "FIELD_NOT_FOUND" s!"Field '{field}' not found in key '{key}'" 404)
        else .ok (.obj [("deleted", .bool true), ("field", .str field)]) })

def QueueOp.plan : QueueOp → Planned
  | batchPushQueue _ _ | pushQueue _ _ => none
  | popQueue key direction => some ("write", do
    let k ← buildKey st.engine ns queuePrefix key
    return {
      sending := .oneByOne, commands := [(k, popCmd direction)], key := key, type := "list"
      data := fun vs =>
        if (first vs).isNone then .error (error "QUEUE_EMPTY" s!"Queue '{key}' is empty" 404)
        else .ok (.obj [("value", first vs)]) })
  | rangeQueue key start stop => some ("read", do
    let k ← buildKey st.engine ns queuePrefix key
    return {
      sending := .oneByOne, commands := [(k, .lrange start stop)], key := key, type := "list"
      data := fun vs => .ok (.obj [("values", first vs), ("count", .int (first vs).len)]) })
  | lenQueue key => some ("read", do
    let k ← buildKey st.engine ns queuePrefix key
    return {
      sending := .oneByOne, commands := [(k, .llen)], key := key, type := "list"
      data := fun vs => .ok (.obj [("length", first vs)]) })
  | deleteQueue key => some ("write", deletePlan st ns queuePrefix key "list")
  | touchQueue key body => some ("write", touchPlan st ns queuePrefix key "list" body)
  | trimQueue key body => some ("write", do
    let k ← buildKey st.engine ns queuePrefix key
    return {
      sending := .oneByOne, commands := [(k, .ltrim (-body.keep) (-1)), (k, .llen)], key := key, type := "list"
      data := fun vs => .ok (.obj [("kept", last vs), ("length", last vs)]) })

def GroupOp.plan : GroupOp → Planned
  | batchGetGroup body => some ("read", do
    let redisKeys ← buildKeys st ns groupPrefix body.keys
    return {
      sending := .pipeline, commands := redisKeys.map fun rk => (rk, .smembers), key := "batch", type := "set"
      data := fun vs =>
        let values := Dict.ofList (((body.keys.zip vs).filter fun x => x.2.truthy).map fun x => (x.1, x.2.sorted))
        .ok (.obj [("values", .obj values.items), ("count", .int values.length)]) })
  | batchAddGroup body => some ("write", do
    body.items.items.forM fun x => x.2.forM fun m => checkValueSize st m "Member"
    let ttl := resolveTtl st body.ttl
    let queued ← queueItems st ns groupPrefix body.items.items fun redisKey members =>
      [(redisKey, .sadd members), lifetime redisKey ttl]
    return {
      sending := .transaction, commands := queued, key := "batch", type := "set"
      data := fun _ => .ok (.obj [("stored", .int body.items.length)]) })
  | addGroup key body => some ("write", do
    body.members.forM fun m => checkValueSize st m "Member"
    let k ← buildKey st.engine ns groupPrefix key
    return {
      sending := .pipeline, commands := [(k, .sadd body.members), lifetime k (resolveTtl st body.ttl), (k, .ttl)]
      key := key, type := "set", ttl := .normalized
      data := fun vs => .ok (.obj [("added", first vs)]) })
  | membersGroup key => some ("read", do
    let k ← buildKey st.engine ns groupPrefix key
    return {
      sending := .oneByOne, commands := [(k, .smembers)], key := key, type := "set"
      data := fun vs => .ok (.obj [("members", (first vs).sorted)]) })
  | containsGroup key member => some ("read", do
    let k ← buildKey st.engine ns groupPrefix key
    return {
      sending := .oneByOne, commands := [(k, .sismember member)], key := key, type := "set"
      data := fun vs => .ok (.obj [("member", .str member), ("exists", .bool (first vs).truthy)]) })
  | deleteGroup key => some ("write", deletePlan st ns groupPrefix key "set")
  | removeGroup key member => some ("write", do
    let k ← buildKey st.engine ns groupPrefix key
    return {
      sending := .oneByOne, commands := [(k, .srem member)], key := key, type := "set"
      data := fun vs =>
        if !(first vs).truthy then .error (error "MEMBER_NOT_FOUND" s!"Member '{member}' not found in group '{key}'" 404)
        else .ok (.obj [("removed", .bool true), ("member", .str member)]) })
  | countGroup key => some ("read", do
    let k ← buildKey st.engine ns groupPrefix key
    return {
      sending := .oneByOne, commands := [(k, .scard)], key := key, type := "set"
      data := fun vs => .ok (.obj [("count", first vs)]) })
  | touchGroup key body => some ("write", touchPlan st ns groupPrefix key "set" body)
  | interGroups _ | unionGroups _ | diffGroups _ => none

def RankOp.plan : RankOp → Planned
  | batchGetRank body => some ("read", do
    let redisKeys ← buildKeys st ns rankPrefix body.keys
    return {
      sending := .pipeline, commands := redisKeys.map fun rk => (rk, .zrange body.start body.stop body.reverse)
      key := "batch", type := "zset"
      data := fun vs =>
        let values := Dict.ofList (((body.keys.zip vs).filter fun x => x.2.truthy).map fun x => (x.1, memberScores x.2))
        .ok (.obj [("values", .obj values.items), ("count", .int values.length)]) })
  | batchAddRank key body => some ("write", do
    body.members.forM fun item => do
      checkValueSize st item.1 "Member"
      if !item.2.isfinite then
        throw (error "INVALID_VALUE" "Score must be a finite number (nan/inf rejected)")
    let k ← buildKey st.engine ns rankPrefix key
    return {
      sending := .pipeline
      commands := [(k, .zadd (Dict.ofList body.members).items), lifetime k (resolveTtl st body.ttl), (k, .ttl)]
      onError := fun _ => error "INVALID_VALUE" "Score is not a valid number (nan)"
      key := key, type := "zset", ttl := .normalized
      data := fun vs => .ok (.obj [("added", first vs), ("total", .int body.members.length)]) })
  | addRank key body => some ("write", do
    checkValueSize st body.member "Member"
    if !body.score.isfinite then
      throw (error "INVALID_VALUE" "Score must be a finite number (nan/inf rejected)")
    let k ← buildKey st.engine ns rankPrefix key
    return {
      sending := .pipeline
      commands := [(k, .zadd [(body.member, body.score)]), lifetime k (resolveTtl st body.ttl), (k, .ttl)]
      onError := fun _ => error "INVALID_VALUE" "Score is not a valid number (nan)"
      key := key, type := "zset", ttl := .normalized
      data := fun vs => .ok (.obj [("added", first vs), ("member", .str body.member), ("score", .float body.score)]) })
  | rangeRank key start stop reverse => some ("read", do
    let k ← buildKey st.engine ns rankPrefix key
    return {
      sending := .oneByOne, commands := [(k, .zrange start stop reverse)], key := key, type := "zset"
      data := fun vs => .ok (.obj [("members", memberScores (first vs)), ("count", .int (memberScores (first vs)).len)]) })
  | scoreRank key member => some ("read", do
    let k ← buildKey st.engine ns rankPrefix key
    return {
      sending := .oneByOne, commands := [(k, .zscore member)], key := key, type := "zset"
      data := fun vs =>
        if (first vs).isNone then .error (error "MEMBER_NOT_FOUND" s!"Member '{member}' not found in rank '{key}'" 404)
        else .ok (.obj [("member", .str member), ("score", first vs)]) })
  | betweenRank key min max => some ("read", do
    let k ← buildKey st.engine ns rankPrefix key
    return {
      sending := .oneByOne, commands := [(k, .zrangebyscore min max)], key := key, type := "zset"
      onError := fun _ => error "INVALID_VALUE" "Score range bound is not a valid number (nan)"
      data := fun vs => .ok (.obj [("members", memberScores (first vs)), ("count", .int (memberScores (first vs)).len)]) })
  | deleteRank key => some ("write", deletePlan st ns rankPrefix key "zset")
  | removeRank key member => some ("write", do
    let k ← buildKey st.engine ns rankPrefix key
    return {
      sending := .oneByOne, commands := [(k, .zrem member)], key := key, type := "zset"
      data := fun vs =>
        if !(first vs).truthy then .error (error "MEMBER_NOT_FOUND" s!"Member '{member}' not found in rank '{key}'" 404)
        else .ok (.obj [("removed", .bool true), ("member", .str member)]) })
  | incrRank key body => some ("write", do
    checkValueSize st body.member "Member"
    if !body.delta.isfinite then
      throw (error "INVALID_VALUE" "Delta must be a finite number (nan/inf rejected)")
    let k ← buildKey st.engine ns rankPrefix key
    return {
      sending := .pipeline, commands := [(k, .zincrby body.delta body.member), (k, .ttl)]
      onError := fun _ => error "INVALID_VALUE" "Resulting score is not a number (nan) or out of range"
      key := key, type := "zset", ttl := .normalized
      data := fun vs => .ok (.obj [("member", .str body.member), ("score", first vs)]) })
  | touchRank key body => some ("write", touchPlan st ns rankPrefix key "zset" body)
  | popRank key max => some ("write", do
    let k ← buildKey st.engine ns rankPrefix key
    return {
      sending := .oneByOne, commands := [(k, .zpop max)], key := key, type := "zset"
      data := fun vs =>
        if !(first vs).truthy then .error (error "RANK_EMPTY" s!"Rank '{key}' is empty" 404)
        else .ok (memberScore ((first vs).nth 0)) })

def EventOp.plan : EventOp → Planned
  | batchPublishEvent key body => some ("write", do
    body.events.forM fun evt => checkDictValuesSize st evt
    let k ← buildKey st.engine ns eventPrefix key
    return {
      sending := .pipeline, commands := body.events.map fun evt => (k, .xadd evt.items st.defaults.maxStreamLength)
      key := key, type := "stream"
      data := fun vs => .ok (.obj [("ids", .arr vs), ("count", .int vs.length)]) })
  | publishEvent key body => some ("write", do
    checkDictValuesSize st body.data
    let k ← buildKey st.engine ns eventPrefix key
    return {
      sending := .oneByOne, commands := [(k, .xadd body.data.items st.defaults.maxStreamLength)], key := key, type := "stream"
      data := fun vs => .ok (.obj [("id", first vs)]) })
  | readEvents key lastId count => some ("read", do
    let k ← buildKey st.engine ns eventPrefix key
    if !streamIdRe lastId then
      throw (invalidStreamId lastId)
    return {
      sending := .oneByOne, commands := [(k, .xrange (if lastId = "0" then "-" else s!"({lastId}") count)]
      key := key, type := "stream"
      data := fun vs =>
        let events := (first vs).items.map eventOf
        .ok (.obj [("events", .arr events), ("count", .int events.length)]) })
  | createGroup key body => some ("read", do
    let k ← buildKey st.engine ns eventPrefix key
    return {
      sending := .oneByOne, commands := [(k, .xgroupCreate body.group "0" true)], key := key, type := "stream"
      onError := fun msg =>
        if Text.occurs "BUSYGROUP".toList msg.toList then
          error "GROUP_EXISTS" s!"Consumer group '{body.group}' already exists" 409
        else error "INTERNAL_ERROR" "Stream operation failed" 500
      data := fun _ => .ok (.obj [("group", .str body.group), ("created", .bool true)]) })
  | readGroup key group consumer count => some ("read", do
    let k ← buildKey st.engine ns eventPrefix key
    return {
      sending := .oneByOne, commands := [(k, .xreadgroup group consumer count)], key := key, type := "stream"
      onError := fun msg =>
        if Text.occurs "NOGROUP".toList msg.toList then error "GROUP_NOT_FOUND" s!"Consumer group '{group}' not found" 404
        else error "INTERNAL_ERROR" "Stream operation failed" 500
      data := fun vs =>
        let events := ((first vs).items.flatMap fun stream => (stream.nth 1).items).map eventOf
        .ok (.obj [("events", .arr events), ("count", .int events.length), ("consumer", .str consumer)]) })
  | ackEvents key group body => some ("read", do
    body.ids.forM fun sid => if !streamIdRe sid then throw (invalidStreamId sid) else pure ()
    let k ← buildKey st.engine ns eventPrefix key
    return {
      sending := .oneByOne, commands := [(k, .xack group body.ids)], key := key, type := "stream"
      data := fun vs => .ok (.obj [("acked", first vs)]) })
  | deleteEvent key => some ("write", deletePlan st ns eventPrefix key "stream")
  | touchEvent key body => some ("write", touchPlan st ns eventPrefix key "stream" body)
  | streamInfo _ => none

def Op.plan : Op → Planned
  | kv o => o.plan st ns
  | map o => o.plan st ns
  | queue o => o.plan st ns
  | group o => o.plan st ns
  | rank o => o.plan st ns
  | event o => o.plan st ns
  | pubsub _ => none

end Tables

/-- What a push does once its client may do it: a script, the lifetime and TTL, in this order. -/
structure Push where
  check : Except Exn Unit
  key : String
  body : Script
  full : String
  ttl : Int
  data : Json → Json

def Push.program (st : Settings) (ns : String) (p : Push) : Handler Json := do
  p.check
  let k ← buildKey st.engine ns queuePrefix p.key
  let result ← script k p.body
  if result.isInt (-1) then
    throw (error "QUEUE_FULL" p.full)
  let vs ← pipeline [lifetime k p.ttl, (k, .ttl)]
  return ok (p.data result) ns p.key "list" (normalizedTtl (last vs))

def QueueOp.push (st : Settings) : QueueOp → Option Push
  | batchPushQueue key body => some {
      check := body.values.forM fun v => checkValueSize st v
      key := key, body := batchPushLua body.direction st.defaults.maxListLength body.values
      full := s!"Queue '{key}' would exceed max length ({st.defaults.maxListLength})", ttl := resolveTtl st body.ttl
      data := fun result => .obj [("length", result), ("pushed", .int body.values.length)] }
  | pushQueue key body => some {
      check := checkValueSize st body.value
      key := key, body := singlePushLua body.direction body.value st.defaults.maxListLength
      full := s!"Queue '{key}' has reached max length ({st.defaults.maxListLength})", ttl := resolveTtl st body.ttl
      data := fun result => .obj [("length", result)] }
  | _ => none

/-- The type prefix of the keys that a request is about. -/
def Op.typePrefix : Op → Option String
  | kv _ => some kvPrefix
  | map _ => some mapPrefix
  | queue _ => some queuePrefix
  | group _ => some groupPrefix
  | rank _ => some rankPrefix
  | event _ => some eventPrefix
  | pubsub _ => none

/-- `k` is the key in Redis of a request that has its key in the path. -/
def Op.Addresses (st : Settings) (ns : String) (o : Op) (k : String) : Prop :=
  ∃ typePrefix key, o.typePrefix = some typePrefix ∧ o.pathKey = some key ∧ buildKey st.engine ns typePrefix key = .ok k

theorem Op.Addresses.built {st : Settings} {ns k : String} {o : Op} (h : o.Addresses st ns k) :
    ∃ typePrefix, o.typePrefix = some typePrefix ∧ o.args ≠ [] ∧
      ∀ key, o.args.head? = some key → buildKey st.engine ns typePrefix key = .ok k := by
  obtain ⟨typePrefix, key, hp, hkey, hk⟩ := h
  unfold Op.pathKey at hkey
  split at hkey
  · refine ⟨typePrefix, hp, fun hnil => ?_, fun key' hkey' => ?_⟩
    · rw [hnil] at hkey
      cases hkey
    · rw [hkey] at hkey'
      cases hkey'
      exact hk
  · cases hkey

/-! ### Handlers follow their plans -/

/-- Goes on with the values, or ends with what becomes of the error. -/
def orRaise {α : Type} (onError : String → Exn) (f : List Json → Handler α) : Except String (List Json) → Handler α
  | .error msg => .raise (onError msg)
  | .ok vs => f vs

section Sending
variable {α β : Type}

theorem raiseFirstError_eq (rs : List Reply) : raiseFirstError rs = (replies rs).mapError .redis := by
  induction rs with
  | nil => rfl
  | cons r rs ih =>
    cases r with
    | error msg => rfl
    | ok v =>
      rw [raiseFirstError, replies, ih]
      cases replies rs <;> rfl

theorem raiseFirstError_bind (rs : List Reply) (f : List Json → Handler α) :
    (Prog.ofExcept (raiseFirstError rs)).bind f = orRaise .redis f (replies rs) := by
  rw [raiseFirstError_eq]
  cases replies rs <;> rfl

theorem redis_bind (k : String) (c : KeyCmd) (f : Json → Handler α) :
    (redis k c).bind f = (sendOneByOne [(k, c)]).bind (orRaise .redis fun vs => f (first vs)) := by
  show Prog.call (Call.redis (.at k c)) _ = Prog.call (Call.redis (.at k c)) _
  refine congrArg (Prog.call (Call.redis (.at k c))) (funext fun r => ?_)
  cases r <;> rfl

theorem pipeline_bind (cs : List (String × KeyCmd)) (f : List Json → Handler α) :
    (pipeline cs).bind f = ((sendAll cs).bind fun rs => .pure (replies rs)).bind (orRaise .redis f) := by
  show ((sendAll cs).bind fun rs => Prog.ofExcept (raiseFirstError rs)).bind f = _
  rw [bind_assoc, bind_assoc]
  refine congrArg _ (funext fun rs => ?_)
  rw [raiseFirstError_bind]
  rfl

theorem transaction_bind (cs : List (String × KeyCmd)) (f : List Json → Handler α) :
    (transaction cs).bind f =
      ((Prog.ask (Call.redis (.multi cs)) : Handler (List Reply)).bind fun rs => .pure (replies rs)).bind (orRaise .redis f) := by
  unfold transaction
  rw [bind_assoc, bind_assoc]
  refine congrArg _ (funext fun rs => ?_)
  rw [raiseFirstError_bind]
  rfl

theorem exceptRedis_bind {h : String → Handler Json} {onError : String → Exn} (hh : ∀ msg, h msg = .raise (onError msg))
    (k : String) (c : KeyCmd) (f : Json → Handler α) :
    (exceptResponseError (redis k c) h).bind f = (sendOneByOne [(k, c)]).bind (orRaise onError fun vs => f (first vs)) := by
  show Prog.call (Call.redis (.at k c)) _ = Prog.call (Call.redis (.at k c)) _
  refine congrArg (Prog.call (Call.redis (.at k c))) (funext fun r => ?_)
  cases r with
  | ok v => rfl
  | error msg =>
    show (h msg).bind f = .raise (onError msg)
    rw [hh]
    rfl

theorem exceptPipeline_bind {h : String → Handler (List Json)} {onError : String → Exn} (hh : ∀ msg, h msg = .raise (onError msg))
    (cs : List (String × KeyCmd)) (f : List Json → Handler α) :
    (exceptResponseError (pipeline cs) h).bind f =
      ((sendAll cs).bind fun rs => .pure (replies rs)).bind (orRaise onError f) := by
  have hcatch : ∀ (g : List Reply → Handler (List Json)) (i : Exn → Handler (List Json)),
      ((sendAll cs).bind g).catching i = (sendAll cs).bind fun rs => (g rs).catching i := by
    induction cs with
    | nil => exact fun _ _ => rfl
    | cons x cs ih =>
      intro g i
      show Prog.call (Call.redis (.at x.1 x.2)) _ = Prog.call (Call.redis (.at x.1 x.2)) _
      refine congrArg (Prog.call (Call.redis (.at x.1 x.2))) (funext fun r => ?_)
      show (((sendAll cs).bind fun rs => Prog.pure (r :: rs)).bind g).catching i =
        ((sendAll cs).bind fun rs => Prog.pure (r :: rs)).bind fun rs => (g rs).catching i
      rw [bind_assoc, bind_assoc]
      exact ih _ i
  unfold exceptResponseError pipeline
  rw [bind_eq, hcatch, bind_assoc, bind_assoc]
  refine congrArg _ (funext fun rs => ?_)
  show ((Prog.ofExcept (raiseFirstError rs) : Handler (List Json)).catching _).bind f = orRaise onError f (replies rs)
  rw [raiseFirstError_eq]
  cases replies rs with
  | ok vs => rfl
  | error msg =>
    show (h msg).bind f = .raise (onError msg)
    rw [hh]
    rfl

theorem ofExcept_seq (x : Except Exn β) (f : β → Except Exn α) :
    (Prog.ofExcept (x >>= f) : Handler α) = (Prog.ofExcept x).bind fun a => Prog.ofExcept (f a) := by
  cases x <;> rfl

theorem Plan.program_of {ns : String} {p : Plan} {handler : Handler Json} {f : List Json → Handler Json}
    (h : handler = p.send.bind (orRaise p.onError f))
    (hf : ∀ vs, f vs = Prog.ofExcept ((p.data vs).map fun d => ok d ns p.key p.type (p.ttl.fill vs))) :
    handler = p.program ns := by
  rw [h]
  refine congrArg _ (funext fun r => ?_)
  cases r with
  | error msg => rfl
  | ok vs => exact hf vs

/-- What is checked first is checked by the plan. -/
theorem checked {x : Except Exn β} {f : β → Handler Json} {q : β → Except Exn Plan} {ns : String}
    (h : ∀ b, f b = (Prog.ofExcept (q b)).bind (Plan.program ns)) :
    (Prog.ofExcept x).bind f = (Prog.ofExcept (x >>= q)).bind (Plan.program ns) := by
  rw [ofExcept_seq, bind_assoc]
  exact congrArg _ (funext h)

/-- The key is built last. -/
theorem keyed {x : Except Exn β} {f : β → Handler Json} {q : β → Plan} {ns : String} (h : ∀ b, f b = (q b).program ns) :
    (Prog.ofExcept x).bind f = (Prog.ofExcept (x >>= fun b => pure (q b))).bind (Plan.program ns) :=
  checked h

end Sending

/-- Every plan that comes of the request satisfies `P`. -/
def Planned.All (P : Plan → Prop) (x : Planned) : Prop := ∀ operation y, x = some (operation, y) → Fallible.Yields P y

theorem Planned.all_some {P : Plan → Prop} {operation : String} {y : Except Exn Plan} (h : Fallible.Yields P y) :
    Planned.All P (some (operation, y)) := by
  intro operation' y' hy
  cases hy
  exact h

theorem Planned.all_none {P : Plan → Prop} : Planned.All P none := fun _ _ h => by cases h

section Keyed
variable {st : Settings} {ns k : String}

theorem yields_keyed {P : Plan → Prop} {typePrefix key : String} {q : String → Plan}
    (hk : buildKey st.engine ns typePrefix key = .ok k) (h : P (q k)) :
    Fallible.Yields P (buildKey st.engine ns typePrefix key >>= fun b => pure (q b)) := by
  rw [hk]
  exact Fallible.yields_pure h

theorem all_keyed {P : Plan → Prop} {operation typePrefix key : String} {q : String → Plan}
    (hk : buildKey st.engine ns typePrefix key = .ok k) (h : P (q k)) :
    Planned.All P (some (operation, buildKey st.engine ns typePrefix key >>= fun b => pure (q b))) :=
  Planned.all_some (yields_keyed hk h)

theorem all_checked {P : Plan → Prop} {operation typePrefix key : String} {β : Type} {y : Except Exn β} {q : β → String → Plan}
    (hk : buildKey st.engine ns typePrefix key = .ok k) (h : ∀ c, P (q c k)) :
    Planned.All P (some (operation, y >>= fun c => buildKey st.engine ns typePrefix key >>= fun b => pure (q c b))) :=
  Planned.all_some (Fallible.Yields.bind fun c _ => yields_keyed hk (h c))

end Keyed

/-- The handler is its plan behind the check of the permission. -/
def Follows (client : ClientInfo) (ns : String) (handler : Handler Json) (plan : Planned) : Prop :=
  ∀ operation x, plan = some (operation, x) →
    handler = (requireAccess client ns operation).bind fun _ => (Prog.ofExcept x).bind (Plan.program ns)

section Follows
variable {st : Settings} {client : ClientInfo} {ns : String}

theorem follows {operation : String} {x : Except Exn Plan} {f : Unit → Handler Json}
    (h : f () = (Prog.ofExcept x).bind (Plan.program ns)) :
    Follows client ns ((requireAccess client ns operation).bind f) (some (operation, x)) := by
  intro operation' x' hsome
  cases hsome
  exact congrArg _ (funext fun _ => h)

theorem deleteKey_plan (typePrefix key typeName : String) :
    deleteKey st ns typePrefix key typeName = (Prog.ofExcept (deletePlan st ns typePrefix key typeName)).bind (Plan.program ns) := by
  refine keyed fun k => Plan.program_of (redis_bind k _ _) fun vs => ?_
  dsimp only
  split <;> rfl

theorem touchKey_plan (typePrefix key typeName : String) (body : TtlSetRequest) :
    ((Prog.ofExcept (buildKey st.engine ns typePrefix key)).bind fun k => touchKey k body.ttl ns key typeName) =
      (Prog.ofExcept (touchPlan st ns typePrefix key typeName body)).bind (Plan.program ns) := by
  refine keyed fun k => Plan.program_of (pipeline_bind _ _) fun vs => ?_
  dsimp only
  split <;> rfl

theorem KvOp.follows (o : KvOp) : Follows client ns (o.handle st client ns) (o.plan st ns) := by
  cases o with
  | batchGetKv body => exact fun _ _ h => by cases h
  | batchSetKv body =>
    refine Redgw.follows ?_
    show ((body.items.items.forM fun x => (Prog.ofExcept (checkValueSize st x.2 s!"Key '{x.1}'") : Handler Unit)).bind _) = _
    rw [forM_ofExcept]
    exact checked fun _ => keyed fun cs => Plan.program_of (transaction_bind cs _) fun vs => rfl
  | getKv key =>
    refine Redgw.follows (keyed fun k => Plan.program_of (pipeline_bind _ _) fun vs => ?_)
    dsimp only
    split <;> rfl
  | setKv key body =>
    exact Redgw.follows (checked fun _ => keyed fun k => Plan.program_of (redis_bind k _ _) fun vs => rfl)
  | deleteKv key => exact Redgw.follows (deleteKey_plan _ _ _)
  | existsKv key => exact Redgw.follows (keyed fun k => Plan.program_of (redis_bind k _ _) fun vs => rfl)
  | incrKv key body =>
    refine Redgw.follows (keyed fun k => Plan.program_of (exceptPipeline_bind (fun _ => rfl) _ _) fun vs => rfl)
  | touchKv key body => exact Redgw.follows (touchKey_plan _ _ _ _)
  | setKvNx key body =>
    refine Redgw.follows (keyed fun k => Plan.program_of (redis_bind k _ _) fun vs => ?_)
    dsimp only
    split <;> rfl

theorem MapOp.follows (o : MapOp) : Follows client ns (o.handle st client ns) (o.plan st ns) := by
  cases o with
  | batchGetMap body =>
    exact Redgw.follows (keyed fun ks => Plan.program_of (pipeline_bind _ _) fun vs => rfl)
  | batchSetMap body =>
    refine Redgw.follows ?_
    show ((body.items.items.forM fun x => (Prog.ofExcept (checkDictValuesSize st x.2) : Handler Unit)).bind _) = _
    rw [forM_ofExcept]
    exact checked fun _ => keyed fun cs => Plan.program_of (transaction_bind cs _) fun vs => rfl
  | getMap key =>
    refine Redgw.follows (keyed fun k => Plan.program_of (pipeline_bind _ _) fun vs => ?_)
    dsimp only
    split <;> rfl
  | getMapField key field =>
    refine Redgw.follows (keyed fun k => Plan.program_of (pipeline_bind _ _) fun vs => ?_)
    dsimp only
    split <;> rfl
  | setMap key body =>
    exact Redgw.follows (checked fun _ => keyed fun k => Plan.program_of (transaction_bind _ _) fun vs => rfl)
  | touchMap key body => exact Redgw.follows (touchKey_plan _ _ _ _)
  | setMapField key field body =>
    refine Redgw.follows (checked fun _ => keyed fun k => ?_)
    dsimp only
    by_cases httl : 0 < resolveTtl st body.ttl
    · rw [if_pos httl]
      refine Plan.program_of (f := fun vs => .pure (ok (.obj [("field", .str field), ("value", .str body.value)]) ns key "hash"
        (last vs))) ?_ fun vs => ?_
      · rw [bind_eq, transaction_bind]
        unfold Plan.send lifetime
        dsimp only
        rw [if_pos httl, if_pos httl]
        rfl
      · dsimp only
        rw [if_pos httl]
        rfl
    · rw [if_neg httl]
      refine Plan.program_of (f := fun vs => .pure (ok (.obj [("field", .str field), ("value", .str body.value)]) ns key "hash"
        (normalizedTtl (last vs)))) ?_ fun vs => ?_
      · rw [bind_eq, pipeline_bind]
        unfold Plan.send lifetime
        dsimp only
        rw [if_neg httl, if_neg httl]
        rfl
      · dsimp only
        rw [if_neg httl]
        rfl
  | deleteMap key => exact Redgw.follows (deleteKey_plan _ _ _)
  | deleteMapField key field =>
    refine Redgw.follows (keyed fun k => Plan.program_of (redis_bind k _ _) fun vs => ?_)
    dsimp only
    split <;> rfl

theorem QueueOp.follows (o : QueueOp) : Follows client ns (o.handle st client ns) (o.plan st ns) := by
  cases o with
  | batchPushQueue key body => exact fun _ _ h => by cases h
  | pushQueue key body => exact fun _ _ h => by cases h
  | popQueue key direction =>
    refine Redgw.follows (keyed fun k => Plan.program_of (redis_bind k _ _) fun vs => ?_)
    dsimp only
    split <;> rfl
  | rangeQueue key start stop =>
    exact Redgw.follows (keyed fun k => Plan.program_of (redis_bind k _ _) fun vs => rfl)
  | lenQueue key => exact Redgw.follows (keyed fun k => Plan.program_of (redis_bind k _ _) fun vs => rfl)
  | deleteQueue key => exact Redgw.follows (deleteKey_plan _ _ _)
  | touchQueue key body => exact Redgw.follows (touchKey_plan _ _ _ _)
  | trimQueue key body =>
    refine Redgw.follows (keyed fun k => Plan.program_of
      (f := fun vs => .pure (ok (.obj [("kept", last vs), ("length", last vs)]) ns key "list")) ?_ fun vs => rfl)
    show Prog.call (Call.redis (.at k _)) _ = Prog.call (Call.redis (.at k _)) _
    refine congrArg (Prog.call (Call.redis (.at k (.ltrim (-body.keep) (-1))))) (funext fun r => ?_)
    cases r with
    | error msg => rfl
    | ok v =>
      show Prog.call (Call.redis (.at k _)) _ = Prog.call (Call.redis (.at k _)) _
      refine congrArg (Prog.call (Call.redis (.at k .llen))) (funext fun r => ?_)
      cases r <;> rfl

/-- A push does what its description says. -/
theorem QueueOp.pushes {o : QueueOp} {p : Push} (h : o.push st = some p) :
    o.handle st client ns = (requireWrite client ns).bind fun _ => p.program st ns := by
  cases o with
  | batchPushQueue key body =>
    cases h
    refine congrArg (Prog.bind (requireWrite client ns)) (funext fun _ => ?_)
    show ((body.values.forM fun v => (Prog.ofExcept (checkValueSize st v) : Handler Unit)).bind _) = _
    rw [forM_ofExcept]
    rfl
  | pushQueue key body =>
    cases h
    rfl
  | _ => cases h

theorem GroupOp.follows (o : GroupOp) : Follows client ns (o.handle st client ns) (o.plan st ns) := by
  cases o with
  | batchGetGroup body =>
    exact Redgw.follows (keyed fun ks => Plan.program_of (pipeline_bind _ _) fun vs => rfl)
  | batchAddGroup body =>
    refine Redgw.follows ?_
    show ((body.items.items.forM fun x =>
      (x.2.forM fun m => (Prog.ofExcept (checkValueSize st m "Member") : Handler Unit))).bind _) = _
    simp only [forM_ofExcept]
    exact checked fun _ => keyed fun cs => Plan.program_of (transaction_bind cs _) fun vs => rfl
  | addGroup key body =>
    refine Redgw.follows ?_
    show ((body.members.forM fun m => (Prog.ofExcept (checkValueSize st m "Member") : Handler Unit)).bind _) = _
    rw [forM_ofExcept]
    exact checked fun _ => keyed fun k => Plan.program_of (pipeline_bind _ _) fun vs => rfl
  | membersGroup key => exact Redgw.follows (keyed fun k => Plan.program_of (redis_bind k _ _) fun vs => rfl)
  | containsGroup key member => exact Redgw.follows (keyed fun k => Plan.program_of (redis_bind k _ _) fun vs => rfl)
  | deleteGroup key => exact Redgw.follows (deleteKey_plan _ _ _)
  | removeGroup key member =>
    refine Redgw.follows (keyed fun k => Plan.program_of (redis_bind k _ _) fun vs => ?_)
    dsimp only
    split <;> rfl
  | countGroup key => exact Redgw.follows (keyed fun k => Plan.program_of (redis_bind k _ _) fun vs => rfl)
  | touchGroup key body => exact Redgw.follows (touchKey_plan _ _ _ _)
  | interGroups body => exact fun _ _ h => by cases h
  | unionGroups body => exact fun _ _ h => by cases h
  | diffGroups body => exact fun _ _ h => by cases h

theorem RankOp.follows (o : RankOp) : Follows client ns (o.handle st client ns) (o.plan st ns) := by
  cases o with
  | batchGetRank body =>
    exact Redgw.follows (keyed fun ks => Plan.program_of (pipeline_bind _ _) fun vs => rfl)
  | batchAddRank key body =>
    have hcheck : (body.members.forM fun item => (do
          checkValueSize st item.1 "Member"
          if !item.2.isfinite then
            throw (error "INVALID_VALUE" "Score must be a finite number (nan/inf rejected)") : Handler Unit)) =
        Prog.ofExcept (body.members.forM fun item => do
          checkValueSize st item.1 "Member"
          if !item.2.isfinite then
            throw (error "INVALID_VALUE" "Score must be a finite number (nan/inf rejected)")) := by
      rw [← forM_ofExcept]
      refine congrArg body.members.forM (funext fun item => ?_)
      show (Prog.ofExcept (checkValueSize st item.1 "Member")).bind _ = _
      cases checkValueSize st item.1 "Member" with
      | error e => rfl
      | ok u => cases item.2.isfinite <;> rfl
    refine Redgw.follows ?_
    show (List.forM body.members _ : Handler PUnit).bind _ = _
    rw [hcheck]
    exact checked fun _ => keyed fun k => Plan.program_of (exceptPipeline_bind (fun _ => rfl) _ _) fun vs => rfl
  | addRank key body =>
    refine Redgw.follows (checked fun _ => ?_)
    dsimp only
    cases body.score.isfinite
    · rfl
    · exact keyed fun k => Plan.program_of (exceptPipeline_bind (fun _ => rfl) _ _) fun vs => rfl
  | rangeRank key start stop reverse =>
    exact Redgw.follows (keyed fun k => Plan.program_of (redis_bind k _ _) fun vs => rfl)
  | scoreRank key member =>
    refine Redgw.follows (keyed fun k => Plan.program_of (redis_bind k _ _) fun vs => ?_)
    dsimp only
    split <;> rfl
  | betweenRank key min max =>
    exact Redgw.follows (keyed fun k => Plan.program_of (exceptRedis_bind (fun _ => rfl) k _ _) fun vs => rfl)
  | deleteRank key => exact Redgw.follows (deleteKey_plan _ _ _)
  | removeRank key member =>
    refine Redgw.follows (keyed fun k => Plan.program_of (redis_bind k _ _) fun vs => ?_)
    dsimp only
    split <;> rfl
  | incrRank key body =>
    refine Redgw.follows (checked fun _ => ?_)
    dsimp only
    cases body.delta.isfinite
    · rfl
    · exact keyed fun k => Plan.program_of (exceptPipeline_bind (fun _ => rfl) _ _) fun vs => rfl
  | touchRank key body => exact Redgw.follows (touchKey_plan _ _ _ _)
  | popRank key max =>
    refine Redgw.follows (keyed fun k => Plan.program_of (redis_bind k _ _) fun vs => ?_)
    dsimp only
    split <;> rfl

theorem EventOp.follows (o : EventOp) : Follows client ns (o.handle st client ns) (o.plan st ns) := by
  cases o with
  | batchPublishEvent key body =>
    refine Redgw.follows ?_
    show ((body.events.forM fun evt => (Prog.ofExcept (checkDictValuesSize st evt) : Handler Unit)).bind _) = _
    rw [forM_ofExcept]
    exact checked fun _ => keyed fun k => Plan.program_of (pipeline_bind _ _) fun vs => rfl
  | publishEvent key body =>
    exact Redgw.follows (checked fun _ => keyed fun k => Plan.program_of (redis_bind k _ _) fun vs => rfl)
  | readEvents key lastId count =>
    refine Redgw.follows (checked fun k => ?_)
    dsimp only
    cases streamIdRe lastId
    · rfl
    · exact Plan.program_of (p := {
        sending := .oneByOne, commands := [(k, .xrange (if lastId = "0" then "-" else s!"({lastId}") count)]
        key := key, type := "stream"
        data := fun vs =>
          .ok (.obj [("events", .arr ((first vs).items.map eventOf)), ("count", .int ((first vs).items.map eventOf).length)]) })
        (redis_bind k _ _) fun vs => rfl
  | createGroup key body =>
    refine Redgw.follows (keyed fun k => Plan.program_of (exceptRedis_bind (fun msg => ?_) k _ _) fun vs => rfl)
    dsimp only
    split <;> rfl
  | readGroup key group consumer count =>
    refine Redgw.follows (keyed fun k => Plan.program_of (exceptRedis_bind (fun msg => ?_) k _ _) fun vs => rfl)
    dsimp only
    split <;> rfl
  | ackEvents key group body =>
    have hcheck : (body.ids.forM fun sid => if !streamIdRe sid then throw (invalidStreamId sid) else Pure.pure () : Handler Unit) =
        Prog.ofExcept (body.ids.forM fun sid => if !streamIdRe sid then throw (invalidStreamId sid) else Pure.pure ()) := by
      rw [← forM_ofExcept]
      refine congrArg body.ids.forM (funext fun sid => ?_)
      cases streamIdRe sid <;> rfl
    refine Redgw.follows ?_
    show (List.forM body.ids _ : Handler PUnit).bind _ = _
    rw [hcheck]
    exact checked fun _ => keyed fun k => Plan.program_of (redis_bind k _ _) fun vs => rfl
  | deleteEvent key => exact Redgw.follows (deleteKey_plan _ _ _)
  | touchEvent key body => exact Redgw.follows (touchKey_plan _ _ _ _)
  | streamInfo key => exact fun _ _ h => by cases h

/-- Every request that has a plan follows it. -/
theorem Op.follows (o : Op) : Follows client ns (o.handle st client ns) (o.plan st ns) := by
  cases o with
  | kv o => exact o.follows
  | map o => exact o.follows
  | queue o => exact o.follows
  | group o => exact o.follows
  | rank o => exact o.follows
  | event o => exact o.follows
  | pubsub o => exact fun _ _ h => by cases h

end Follows

end Redgw
