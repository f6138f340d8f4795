import Redgw.Redis.Command

/-! # Request metrics

Every worker counts its requests in the same Redis counters, under keys of their own. -/

namespace Redgw
open Redis

def metricsPrefix := "redgw:metrics"
def totalKey := metricsPrefix ++ ":total_requests"
def statusKey (statusCode : Nat) : String := metricsPrefix ++ ":status:" ++ toString statusCode
def nsReqKey (ns : String) : String := metricsPrefix ++ ":ns:" ++ ns
def clientReqKey (clientId : String) : String := metricsPrefix ++ ":client:" ++ clientId
def latencyBucketKey (bucket : String) : String := metricsPrefix ++ ":latency:" ++ bucket
def authFailKey (reason : String) : String := metricsPrefix ++ ":auth_failures:" ++ reason
def auditDroppedKey (cause : String) : String := metricsPrefix ++ ":audit_dropped:" ++ cause
def latencySumKey := metricsPrefix ++ ":latency_sum"
def latencyCountKey := metricsPrefix ++ ":latency_count"

/-- The bounds of the histogram, in milliseconds. -/
def latencyBuckets : List Nat := [5, 10, 25, 50, 100, 250, 500, 1000, 5000]

def incr (key : String) : String × KeyCmd := (key, .incrby 1)

def recordAuthFailure (reason : String) : List (String × KeyCmd) := [incr (authFailKey reason)]

def recordAuditDropped (cause : String) : List (String × KeyCmd) := [incr (auditDroppedKey cause)]

/-- The pipeline that counts one request. -/
def recordRequest (statusCode : Nat) (durationMs : Rat) (ns clientId : String) : List (String × KeyCmd) :=
  [incr totalKey, incr (statusKey statusCode)] ++
  (if ns ≠ "" then [incr (nsReqKey ns)] else []) ++
  (if clientId ≠ "" then [incr (clientReqKey clientId)] else []) ++
  (if 0 < durationMs then
    [(latencySumKey, .incrbyfloat (.fin durationMs)), incr latencyCountKey] ++
    ((latencyBuckets.filter fun (b : Nat) => decide (durationMs ≤ (b : Rat))).map fun b => incr (latencyBucketKey (toString b))) ++
    [incr (latencyBucketKey "inf")]
  else [])

end Redgw
