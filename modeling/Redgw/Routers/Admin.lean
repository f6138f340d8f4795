import Redgw.Handler
import Redgw.Redis.Counters
import Redgw.Route

/-! # The admin endpoints: `/admin/*`

Keys by pattern, single keys and statistics. What `SCAN` and `INFO` answer is given to the handlers. -/

namespace Redgw
open Redis

/-! ### Keys by pattern -/

/-- `_is_storage_key` -/
def isStorageKey (engine : Engine) (redisKey : String) : Bool :=
  match parseKey engine redisKey with
  | some (_, typePrefix, _) => storagePrefixes.contains typePrefix
  | none => false

theorem parse_storage {engine : Engine} {k : String} : isStorageKey engine k = true ↔
    ∃ ns typePrefix key, parseKey engine k = some (ns, typePrefix, key) ∧ typePrefix ∈ storagePrefixes := by
  unfold isStorageKey
  constructor
  · intro h
    split at h
    · rename_i ns typePrefix key hparse
      exact ⟨ns, typePrefix, key, hparse, List.contains_iff_mem.mp h⟩
    · cases h
  · rintro ⟨ns, typePrefix, key, hparse, hp⟩
    rw [hparse]
    exact List.contains_iff_mem.mpr hp

def sortedKeys (keys : List String) : Json := (Json.arr (keys.map .str)).sorted

/-- One page. `scan` answers a pattern with the next cursor and the keys. -/
def listKeys (st : Settings) (client : ClientInfo) (ns typeName : Option String) (pattern : String)
    (scan : String → Nat × List String) : Handler Json := do
  match filterOr ns with
  | some ns =>
    let _ ← validateNs st.engine ns
    requireRead client ns
  | none => Prog.pure ()
  let searchPattern ← buildScanPattern ns typeName pattern
  let (nextCursor, keys) := scan searchPattern
  let userKeys := keys.filter (isStorageKey st.engine)
  return okSimple (.obj [("keys", sortedKeys userKeys), ("count", .int userKeys.length), ("cursor", .int nextCursor),
    ("has_more", .bool (nextCursor ≠ 0))])

/-- The loop over the scanned keys: at most 10000 are taken, and the flag tells that there were more. -/
def collectKeys (engine : Engine) : List String → List String → List String × Bool
  | [], keysToDelete => (keysToDelete, false)
  | key :: keys, keysToDelete =>
    if !isStorageKey engine key then collectKeys engine keys keysToDelete
    else if 10000 ≤ keysToDelete.length then (keysToDelete, true)
    else collectKeys engine keys (keysToDelete ++ [key])

/-- `xs[i:i + size] for i in range(0, len(xs), size)` -/
def batches (size : Nat) (xs : List String) : List (List String) :=
  (List.range ((xs.length + size - 1) / size)).map fun i => (xs.drop (size * i)).take size

/-- `for batch in ..: deleted += await r.delete(*batch)` -/
def deleteBatches : List (List String) → Int → Handler Int
  | [], deleted => .pure deleted
  | batch :: rest, deleted => do
    let n ← (Prog.ask (.redis (.del batch))).bind ofReply
    deleteBatches rest (deleted + match n with
      | .int n => n
      | _ => 0)

def bulkDeleteKeys (st : Settings) (client : ClientInfo) (ns : String) (typeName : Option String) (pattern : String)
    (dryRun : Bool) (scanIter : String → List String) : Handler Json := do
  requireAdmin client
  let _ ← validateNs st.engine ns
  let searchPattern ← buildScanPattern (some ns) typeName pattern
  let (keysToDelete, truncated) := collectKeys st.engine (scanIter searchPattern) []
  if dryRun then
    return okSimple (.obj [("keys", sortedKeys keysToDelete), ("count", .int keysToDelete.length),
      ("truncated", .bool truncated), ("dry_run", .bool true)])
  let deleted ← deleteBatches (batches 100 keysToDelete) 0
  return okSimple (.obj [("deleted", .int deleted), ("truncated", .bool truncated), ("dry_run", .bool false)])

/-! ### One key -/

def keyNotFound (redisKey : String) : Exn := error "KEY_NOT_FOUND" s!"Key not found: {redisKey}" 404

/-- The size of a value, under the name that its type has for it. -/
def sizeInfo (redisKey keyType : String) : Handler (List (String × Json)) :=
  if keyType = "string" then do return [("length", ← redis redisKey .strlen)]
  else if keyType = "hash" then do return [("field_count", ← redis redisKey .hlen)]
  else if keyType = "list" then do return [("length", ← redis redisKey .llen)]
  else if keyType = "set" then do return [("member_count", ← redis redisKey .scard)]
  else if keyType = "zset" then do return [("member_count", ← redis redisKey .zcard)]
  else if keyType = "stream" then do return [("length", ← redis redisKey .xlen)]
  else return []

/-- The TTL is passed on as it is read. -/
def keyInfo (st : Settings) (client : ClientInfo) (ns typeName key : String) : Handler Json := do
  requireRead client ns
  let typePrefix ← resolveTypePrefix typeName
  let redisKey ← buildKey st.engine ns typePrefix key
  let keyType ← redis redisKey .type
  if keyType.text = "none" then
    throw (keyNotFound redisKey)
  let ttl ← redis redisKey .ttl
  let encoding ← redis redisKey .objectEncoding
  let size ← sizeInfo redisKey keyType.text
  return okSimple (.obj ([("redis_key", .str redisKey), ("type", keyType), ("ttl", ttl), ("encoding", encoding)] ++ size))

/-- The TTL is passed on as it is read. -/
def setTtl (st : Settings) (client : ClientInfo) (ns typeName key : String) (body : TtlSetRequest) : Handler Json := do
  requireAdmin client
  let typePrefix ← resolveTypePrefix typeName
  let redisKey ← buildKey st.engine ns typePrefix key
  let there ← redis redisKey .exists
  if !there.truthy then
    throw (keyNotFound redisKey)
  let _ ← redis redisKey (if 0 < body.ttl then .expire body.ttl else .persist)
  let actualTtl ← redis redisKey .ttl
  return okSimple (.obj [("redis_key", .str redisKey), ("ttl", actualTtl)])

def Admin.deleteKey (st : Settings) (client : ClientInfo) (ns typeName key : String) : Handler Json := do
  requireAdmin client
  let typePrefix ← resolveTypePrefix typeName
  let redisKey ← buildKey st.engine ns typePrefix key
  let deleted ← redis redisKey .del
  if !deleted.truthy then
    throw (keyNotFound redisKey)
  return okSimple (.obj [("redis_key", .str redisKey), ("deleted", .bool true)])

/-- `loads` reads the text of a JSON object; any other text is handed out raw. -/
def adminAuditOrigin (st : Settings) (client : ClientInfo) (ns typeName key : String) (loads : String → Option (Dict Json)) :
    Handler Json := do
  requireAdmin client
  let typePrefix ← resolveTypePrefix typeName
  let redisKey ← buildKey st.engine ns typePrefix key
  let originKey := "__redgw:audit:origin:" ++ redisKey
  let raw ← redis originKey .get
  if raw.isNone then
    throw (error "KEY_NOT_FOUND" s!"No audit origin for {ns}:{typePrefix}:{key} (correlation disabled or expired)" 404)
  let payload := (loads raw.text).getD (Dict.empty.insert "raw" raw)
  let ttl ← redis originKey .ttl
  let seconds := match ttl with
    | .int n => if 0 ≤ n then ttl else .null
    | _ => .null
  return .obj ((payload.insert "ttl_seconds" seconds).insert "redis_key" (.str redisKey)).items

/-! ### Statistics -/

structure NsStats where
  totalKeys : Int
  byType : Dict Int

def countStats (engine : Engine) (d : Dict NsStats) (key : String) : Dict NsStats :=
  match parseKey engine key with
  | some (ns, typePrefix, _) =>
    if storagePrefixes.contains typePrefix then
      let x := (d.items.lookup ns).getD ⟨0, .empty⟩
      d.insert ns ⟨x.totalKeys + 1, x.byType.insert typePrefix ((x.byType.items.lookup typePrefix).getD 0 + 1)⟩
    else d
  | none => d

/-- The loop over the scanned keys, which ends when `limit` of them have been visited. -/
def scanStats (engine : Engine) (limit : Nat) : List String → Nat → Dict NsStats → Nat × Dict NsStats
  | [], scanned, d => (scanned, d)
  | key :: keys, scanned, d =>
    let d := countStats engine d key
    if limit ≤ scanned + 1 then (scanned + 1, d) else scanStats engine limit keys (scanned + 1) d

def statsJson (d : Dict NsStats) : Json :=
  .obj (d.items.map fun x => (x.1, .obj [("total_keys", .int x.2.totalKeys),
    ("by_type", .obj (x.2.byType.items.map fun y => (y.1, .int y.2)))]))

/-- `memory` has the two values of `INFO memory` that are shown, `keys` what the scan of `*` has. -/
def getStats (st : Settings) (limit : Nat) (memory : String × String) (keys : List String) : Handler Json := do
  let (scanned, nsStats) := scanStats st.engine limit keys 0 .empty
  return okSimple (.obj [("redis_memory", .obj [("used_memory_human", .str memory.1),
    ("used_memory_peak_human", .str memory.2)]), ("namespaces", statsJson nsStats), ("scanned_keys", .int scanned),
    ("truncated", .bool (decide (limit ≤ scanned)))])

/-! ### Requests -/

/-- A request to an admin endpoint, with what `SCAN` and `INFO` answer to it. -/
inductive AdminOp
  | listKeys (ns typeName : Option String) (pattern : String) (scan : String → Nat × List String)
  | keyInfo (ns typeName key : String)
  | setTtl (ns typeName key : String) (body : TtlSetRequest)
  | bulkDeleteKeys (ns : String) (typeName : Option String) (pattern : String) (dryRun : Bool)
    (scanIter : String → List String)
  | deleteKey (ns typeName key : String)
  | getStats (limit : Nat) (memory : String × String) (keys : List String)
  | adminAuditOrigin (ns typeName key : String) (loads : String → Option (Dict Json))

namespace AdminOp

def method : AdminOp → Method
  | setTtl .. => .PUT
  | bulkDeleteKeys .. | deleteKey .. => .DELETE
  | listKeys .. | keyInfo .. | getStats .. | adminAuditOrigin .. => .GET

def path : AdminOp → String
  | listKeys .. => "/api/v1/admin/keys"
  | keyInfo ns typeName key => s!"/api/v1/admin/info/{ns}/{typeName}/{key}"
  | setTtl ns typeName key _ => s!"/api/v1/admin/ttl/{ns}/{typeName}/{key}"
  | bulkDeleteKeys .. => "/api/v1/admin/keys/bulk"
  | deleteKey ns typeName key => s!"/api/v1/admin/keys/{ns}/{typeName}/{key}"
  | getStats .. => "/api/v1/admin/stats"
  | adminAuditOrigin ns typeName key _ => s!"/api/v1/admin/audit/origin/{ns}/{typeName}/{key}"

/-- The path parameter `key` of the route, if it has one. -/
def pathKey : AdminOp → Option String
  | keyInfo _ _ key | setTtl _ _ key _ | deleteKey _ _ key | adminAuditOrigin _ _ key _ => some key
  | listKeys .. | bulkDeleteKeys .. | getStats .. => none

def valid : AdminOp → Bool
  | setTtl _ _ _ body => body.valid
  | getStats limit _ _ => decide (1 ≤ limit ∧ limit ≤ 100000)
  | _ => true

def handle (st : Settings) (client : ClientInfo) : AdminOp → Handler Json
  | listKeys ns typeName pattern scan => Redgw.listKeys st client ns typeName pattern scan
  | keyInfo ns typeName key => Redgw.keyInfo st client ns typeName key
  | setTtl ns typeName key body => Redgw.setTtl st client ns typeName key body
  | bulkDeleteKeys ns typeName pattern dryRun scanIter =>
    Redgw.bulkDeleteKeys st client ns typeName pattern dryRun scanIter
  | deleteKey ns typeName key => Admin.deleteKey st client ns typeName key
  | getStats limit memory keys => Redgw.getStats st limit memory keys
  | adminAuditOrigin ns typeName key loads => Redgw.adminAuditOrigin st client ns typeName key loads

end AdminOp

end Redgw
