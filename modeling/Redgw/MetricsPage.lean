import Redgw.Lib.Dict
import Redgw.Lib.Exposition
import Redgw.Keys
import Redgw.Metrics
import Redgw.Redis.Counters

/-! # The metrics page

The counters as they are read back from Redis, and the text that Prometheus scrapes. -/

namespace Redgw
open Redis Exposition

/-! ### Reading the counters -/

structure Snapshot where
  totalRequests : Int
  statusCodes : Dict Int
  uptimeSeconds : Double
  nsRequests : Dict Int
  clientRequests : Dict Int
  latencySum : Double
  latencyCount : Int
  latencyBuckets : List (String × Int)
  authFailures : Dict Int
  auditDropped : Dict Int

/-- `int(v or 0)` of a decoded text. -/
def pyInt (v : Json) : Except String Int :=
  if v.truthy then
    match parseInt v.text with
    | some n => .ok n
    | none => .error s!"invalid literal for int() with base 10: '{v.text}'"
  else .ok 0

def zero : Double := ⟨false, [0], 1, by decide⟩

/-- `float(v or 0)`; `toFloat` reads the texts that `INCRBYFLOAT` leaves. -/
def pyFloat (toFloat : String → Double) (v : Json) : Double := if v.truthy then toFloat v.text else zero

/-- `k.rsplit(":", 1)[-1]` -/
def labelOf (key : String) : String := .ofList (Text.lastPart ':' key.toList)

variable (R : Server) {s : Store} {now : Nat}

/-- The counters of one kind by their labels. -/
def readLabels (scan : Scan s now) (kind : String) : Except String (Dict Int) :=
  let keys := scan.keys (metricsPrefix ++ ":" ++ kind ++ ":*")
  if keys.isEmpty then .ok .empty
  else do
    let values ← R.gather .mget now (keys.map s)
    let counts ← values.items.mapM pyInt
    return .ofList ((keys.map labelOf).zip counts)

def bucketLabels : List String := latencyBuckets.map toString ++ ["+Inf"]

def bucketKeys : List String := latencyBuckets.map (fun b => latencyBucketKey (toString b)) ++ [latencyBucketKey "inf"]

/-- The body of `get_metrics_async`; an error is caught there. -/
def readMetrics (scan : Scan s now) (toFloat : String → Double) (uptime : Double) : Except String Snapshot := do
  let total ← (R.onKey .get now (s totalKey)).1
  let statusCodes ← readLabels R scan "status"
  let nsRequests ← readLabels R scan "ns"
  let clientRequests ← readLabels R scan "client"
  let latencySum ← (R.onKey .get now (s latencySumKey)).1
  let latencyCount ← (R.onKey .get now (s latencyCountKey)).1
  let values ← R.gather .mget now (bucketKeys.map s)
  let buckets ← values.items.mapM pyInt
  let authFailures ← readLabels R scan "auth_failures"
  let auditDropped ← readLabels R scan "audit_dropped"
  let totalRequests ← pyInt total
  let count ← pyInt latencyCount
  return {
    totalRequests := totalRequests
    statusCodes := statusCodes
    uptimeSeconds := uptime
    nsRequests := nsRequests
    clientRequests := clientRequests
    latencySum := pyFloat toFloat latencySum
    latencyCount := count
    latencyBuckets := bucketLabels.zip buckets
    authFailures := authFailures
    auditDropped := auditDropped }

def getMetrics (scan : Scan s now) (toFloat : String → Double) (uptime : Double) : Snapshot :=
  match readMetrics R scan toFloat uptime with
  | .ok m => m
  | .error _ => ⟨0, .empty, uptime, .empty, .empty, zero, 0, [], .empty, .empty⟩

/-- What a snapshot says of latencies. -/
structure Latency where
  sum : Double
  count : Int
  buckets : List (String × Int)

/-- The commands of `get_metrics_async` for the latencies, each on the store and at the time it finds. -/
def readLatency (toFloat : String → Double) (atSum atCount atBuckets : Store × Nat) : Except String Latency := do
  let latencySum ← (R.onKey .get atSum.2 (atSum.1 latencySumKey)).1
  let latencyCount ← (R.onKey .get atCount.2 (atCount.1 latencyCountKey)).1
  let values ← R.gather .mget atBuckets.2 (bucketKeys.map atBuckets.1)
  let buckets ← values.items.mapM pyInt
  let count ← pyInt latencyCount
  return { sum := pyFloat toFloat latencySum, count := count, buckets := bucketLabels.zip buckets }

def Snapshot.latency (m : Snapshot) : Latency := ⟨m.latencySum, m.latencyCount, m.latencyBuckets⟩

/-- With nothing in between, the commands read what the snapshot says. -/
theorem readLatency_readMetrics (scan : Scan s now) {toFloat : String → Double} {uptime : Double} {m : Snapshot}
    (h : readMetrics R scan toFloat uptime = .ok m) :
    readLatency R toFloat (s, now) (s, now) (s, now) = .ok m.latency := by
  unfold readMetrics at h
  obtain ⟨total, -, h⟩ := Fallible.bind_ok.mp h
  obtain ⟨statusCodes, -, h⟩ := Fallible.bind_ok.mp h
  obtain ⟨nsRequests, -, h⟩ := Fallible.bind_ok.mp h
  obtain ⟨clientRequests, -, h⟩ := Fallible.bind_ok.mp h
  obtain ⟨latencySum, hsum, h⟩ := Fallible.bind_ok.mp h
  obtain ⟨latencyCount, hcount, h⟩ := Fallible.bind_ok.mp h
  obtain ⟨values, hvalues, h⟩ := Fallible.bind_ok.mp h
  obtain ⟨buckets, hbuckets, h⟩ := Fallible.bind_ok.mp h
  obtain ⟨authFailures, -, h⟩ := Fallible.bind_ok.mp h
  obtain ⟨auditDropped, -, h⟩ := Fallible.bind_ok.mp h
  obtain ⟨totalRequests, -, h⟩ := Fallible.bind_ok.mp h
  obtain ⟨count, hint, h⟩ := Fallible.bind_ok.mp h
  cases h
  refine Fallible.bind_ok.mpr ⟨latencySum, hsum, ?_⟩
  refine Fallible.bind_ok.mpr ⟨latencyCount, hcount, ?_⟩
  refine Fallible.bind_ok.mpr ⟨values, hvalues, ?_⟩
  refine Fallible.bind_ok.mpr ⟨buckets, hbuckets, ?_⟩
  exact Fallible.bind_ok.mpr ⟨count, hint, rfl⟩

/-! ### The text -/

/-- The parts of `INFO` that the page shows. -/
structure RedisInfo where
  usedMemory : Option Int
  maxmemory : Option Int
  opsPerSec : Option Int
  keyspaceHits : Option Int
  keyspaceMisses : Option Int
  evictedKeys : Option Int
  connectedClients : Option Int

def countNs (engine : Engine) (d : Dict Int) (key : String) : Dict Int :=
  match parseKey engine key with
  | some (ns, typePrefix, _) =>
    if storagePrefixes.contains typePrefix then d.insert ns ((d.items.lookup ns).getD 0 + 1) else d
  | none => d

/-- `_get_ns_counts_cached`: how many of the first 5000 keys each namespace stores. -/
def nsCounts (engine : Engine) (keys : List String) : Dict Int := (keys.take 5000).foldl (countNs engine) .empty

def headerLines (name help kind : String) : List String :=
  ["# HELP " ++ name ++ " " ++ help, "# TYPE " ++ name ++ " " ++ kind]

def labelledLine (name label value number : String) : String :=
  name ++ "\x7b" ++ label ++ "=\"" ++ value ++ "\"\x7d " ++ number

def plainLine (name number : String) : String := name ++ " " ++ number

def labelledLines (name label : String) (counts : List (String × Int)) : List String :=
  counts.map fun (value, count) => labelledLine name label value (toString count)

/-- The families that are left out when there is nothing to count. -/
def optionalFamily (name help label : String) (counts : Dict Int) : List String :=
  if counts.items.isEmpty then []
  else headerLines name help "counter" ++ labelledLines name label counts.items

def gauge (name help : String) (value : String) : List String :=
  headerLines name help "gauge" ++ [plainLine name value]

def counter (name help : String) (value : String) : List String :=
  headerLines name help "counter" ++ [plainLine name value]

def latencyLines (m : Snapshot) : List String :=
  if 0 < m.latencyCount then
    headerLines "redgw_request_duration_ms" "Request latency histogram (ms)" "histogram" ++
    labelledLines "redgw_request_duration_ms_bucket" "le" m.latencyBuckets ++
    [plainLine "redgw_request_duration_ms_sum" (.ofList m.latencySum.text),
     plainLine "redgw_request_duration_ms_count" (toString m.latencyCount)]
  else []

def redisLines (info : RedisInfo) : List String :=
  let shown := fun n : Option Int => toString (n.getD 0)
  gauge "redgw_redis_memory_bytes" "Redis used memory" (shown info.usedMemory) ++
  (if info.maxmemory.getD 0 ≠ 0 then
    gauge "redgw_redis_memory_limit_bytes" "Redis maxmemory" (shown info.maxmemory)
  else []) ++
  gauge "redgw_redis_ops_per_sec" "Redis instantaneous ops/sec" (shown info.opsPerSec) ++
  counter "redgw_redis_keyspace_hits_total" "Redis keyspace hits" (shown info.keyspaceHits) ++
  counter "redgw_redis_keyspace_misses_total" "Redis keyspace misses" (shown info.keyspaceMisses) ++
  counter "redgw_redis_evicted_keys_total" "Redis evicted keys" (shown info.evictedKeys) ++
  gauge "redgw_redis_connected_clients" "Redis connected clients" (shown info.connectedClients)

/-- The lines of the page, in order. `keys` and `validation` are the implementations of the two modules
    that have one in Rust. -/
def prometheusLines (m : Snapshot) (keys validation : Engine) (info : RedisInfo) (ns : Dict Int) : List String :=
  headerLines "redgw_requests_total" "Total requests by HTTP status" "counter" ++
  labelledLines "redgw_requests_total" "status" m.statusCodes.items ++
  latencyLines m ++
  optionalFamily "redgw_ns_requests_total" "Requests per namespace" "ns" m.nsRequests ++
  optionalFamily "redgw_client_requests_total" "Requests per client" "client" m.clientRequests ++
  optionalFamily "redgw_auth_failures_total" "Authentication/authorization failures by reason" "reason"
    m.authFailures ++
  headerLines "redgw_build_info" "Build information" "gauge" ++
  [labelledLine "redgw_build_info" "core_engine"
    (if keys = .rust ∧ validation = .rust then "rust" else "python") "1"] ++
  gauge "redgw_uptime_seconds" "Service uptime" (.ofList m.uptimeSeconds.text) ++
  redisLines info ++
  headerLines "redgw_ns_keys_total" "Keys per namespace (sampled)" "gauge" ++
  labelledLines "redgw_ns_keys_total" "ns" ns.items

/-- `prometheus_metrics`, when its text is not taken from the cache. -/
def prometheusMetrics (m : Snapshot) (keys validation : Engine) (info : RedisInfo) (ns : Dict Int) : String :=
  "\n".intercalate (prometheusLines m keys validation info ns) ++ "\n"

end Redgw
