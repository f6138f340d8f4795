import Redgw.Lib.Dict

/-! # Settings

The settings that the modelled code reads. -/

namespace Redgw

/-- Which implementation of the key module is loaded: `redgw_core`, or the Python fallback. -/
inductive Engine
  | rust
  | python
deriving DecidableEq, Repr

structure ClientConfig where
  apiKey : String
  description : String := ""
  namespaces : Dict (List String) := .empty

structure DefaultsConfig where
  ttl : Int := 86400
  maxListLength : Int := 10000
  maxStreamLength : Int := 50000
  maxValueSize : Nat := 1048576

structure AdminConfig where
  apiKey : String := ""

structure AuditConfig where
  level : Nat := 1
  excludePaths : List String := ["/health", "/metrics", "/api/v1/metrics", "/"]
  payloadPrefixBytes : Nat := 0
  correlation : Bool := false
  correlationTtlSeconds : Int := 86400

structure Settings where
  engine : Engine := .python
  clients : Dict ClientConfig := .empty
  defaults : DefaultsConfig := {}
  admin : AdminConfig := {}
  audit : AuditConfig := {}

/-- An authenticated client, with the operations it holds on each namespace. -/
structure ClientInfo where
  clientId : String
  description : String
  namespaces : List (String × List String)
deriving DecidableEq

end Redgw
