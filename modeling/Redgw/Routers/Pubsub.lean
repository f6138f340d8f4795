import Redgw.Footprint
import Redgw.Route

/-! # Channels: `/ns/{ns}/publish/{channel}` -/

namespace Redgw
open Redis

variable (st : Settings) (client : ClientInfo)

def publishMessage (ns channel : String) (body : PublishRequest) : Handler Json := do
  requireWrite client ns
  let _ ← validateNs st.engine ns
  let _ ← validateKey st.engine channel
  checkValueSize st body.message "Message"
  let fullChannel := s!"{ns}:{channel}"
  let receivers ← publish fullChannel body.message
  return ok (.obj [("channel", .str fullChannel), ("receivers", receivers)]) ns channel "pubsub"

/-! ### Requests -/

open Prog

def pubsubRoutes : List Route := [.underNs .POST [.lit "publish", .param "channel"]]

inductive PubsubOp
  | publishMessage (channel : String) (body : PublishRequest)

namespace PubsubOp

def route : PubsubOp → Route
  | publishMessage _ _ => .underNs .POST [.lit "publish", .param "channel"]

def args : PubsubOp → List String
  | publishMessage channel _ => [channel]

def valid : PubsubOp → Bool
  | publishMessage _ body => body.valid

def handle (ns : String) : PubsubOp → Handler Json
  | publishMessage channel body => Redgw.publishMessage st client ns channel body

def use : PubsubOp → Use
  | publishMessage _ _ => .writes

variable {st : Settings} {client : ClientInfo}

theorem route_mem (o : PubsubOp) : o.route ∈ pubsubRoutes := by
  cases o
  simp [route, pubsubRoutes]

theorem within (ns : String) (o : PubsubOp) : (o.handle st client ns).Calls (Within st client ns o.use) := by
  cases o with
  | publishMessage channel body =>
    refine within_guard (u := .writes) fun ha => Calls.ofExcept_bind fun _ _ => ?_
    refine Calls.ofExcept_bind fun _ _ => Calls.ofExcept_bind fun _ _ => ?_
    exact Calls.bind (within_publish ha) fun _ => trivial

end PubsubOp

end Redgw
