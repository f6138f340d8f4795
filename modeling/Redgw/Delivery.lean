import Redgw.Lib.Emissions
import Redgw.Lib.Topics
import Redgw.System
import Redgw.WebSocket

/-! # From publishers to subscribers

Redis hands a published message to the connections that are subscribed to its channel; it is a broker of which only
what its documentation promises is assumed. The pump of a subscription takes the messages from its connection one by
one and sends them to its client. -/

namespace Redgw
open Redis

/-- What a command publishes, if Redis accepts it. -/
def publication (R : Server) : Call → Option (String × String)
  | .redis (.publish channel message) =>
    match R.publish channel message with
    | .ok _ => some (channel, message)
    | .error _ => none
  | _ => none

def publications (R : Server) (log : List (Prog.Step Call Nat Store)) : List (String × String) :=
  Prog.emissions (publication R) log

/-- The gateway with the commands that it has sent. -/
abbrev LoggedGateway := Pool Call Call.Ret Exn (Option Response) (Store × List (Prog.Step Call Nat Store))

namespace WebSocket

/-- What `ws.send_json` is given for a message. -/
def Connect.frame (c : Connect) (data : String) : Json := .obj [("channel", .str c.fullChannel), ("data", .str data)]

/-- What belongs to a handler: what it knows of its Redis connection, and its pump. `sending` is the message that the
    pump is at, and `ended` tells that an exception has ended it. -/
structure Feed where
  request : Connect
  history : Topics.History String String
  sending : Option String
  ended : Bool
  sent : List Json

def Feed.start (c : Connect) : Feed := ⟨c, .init c.fullChannel, none, false, []⟩

/-- How an `await` of the pump ends. -/
inductive Pump
  | gets
  | getRaises
  | sends
  | sendRaises
deriving DecidableEq

/-- `msg` is what `get_message` returns; without a message the pump asks again. -/
def Feed.pump (f : Feed) (msg : Option String) : Pump → Option Feed
  | .gets =>
    if f.ended || f.sending.isSome then none
    else match msg with
      | none => some f
      | some message => some { f with history := f.history.take message, sending := some message }
  | .getRaises => if f.ended || f.sending.isSome then none else some { f with ended := true }
  | .sends => f.sending.map fun message => { f with sending := none, sent := f.sent ++ [f.request.frame message] }
  | .sendRaises => f.sending.map fun _ => { f with sending := none, ended := true }

/-- The handler has sent `SUBSCRIBE` and still has its connection. -/
def Place.subscribed : Place → Bool
  | .subscribing | .waiting | .gathering | .leaving true true | .unsubscribing | .closingPubsub => true
  | _ => false

/-- The pump runs while the handler waits for it. A message whose sending has begun can still get out when the pump is
    cancelled. -/
def Place.pumps : Place → Pump → Bool
  | .waiting, _ => true
  | .gathering, .sends => true
  | _, _ => false

/-- The connection of a handler has the handler's number. -/
structure Hub (B : Topics.Broker String String) where
  gateway : LoggedGateway
  sockets : State
  feeds : List Feed
  broker : B.State

variable (B : Topics.Broker String String)

def Hub.init : Hub B := ⟨⟨(Store.empty, []), []⟩, .init, [], B.init⟩

inductive Event
  | http (a : Pool.Act Job Nat)
  | socket (a : Action)
  /-- Redis learns of a subscription, at first or after its connection has been made again. -/
  | attach (i : Nat)
  | lose (i : Nat)
  | pump (i : Nat) (p : Pump)

namespace Hub

variable (st : Settings) (R : Server)
variable {B}

def published (h : Hub B) : List (String × String) := publications R h.gateway.state.2

/-- What the next call of the program publishes. -/
def fresh (h : Hub B) : Pool.Act Job Nat → Option (String × String)
  | .resume i _ =>
    match h.gateway.programs[i]? with
    | some (.call c _) => publication R c
    | _ => none
  | .start _ => none

def publish (s : B.State) : Option (String × String) → B.State
  | none => s
  | some x => B.publish x s

def join (feeds : List Feed) : Action → List Feed
  | .connect c => feeds ++ [.start c]
  | .resume _ _ => feeds

/-- What an `await` of the pump gets from the connection. -/
def receive (s : B.State) (i : Nat) : Pump → Option String × B.State
  | .gets => B.getMessage i s
  | _ => (none, s)

def step (h : Hub B) : Event → Option (Hub B)
  | .http a => do
    let gateway ← Pool.step (Pool.logged (execStore R)) (Job.program st) h.gateway a
    return { h with gateway := gateway, broker := publish h.broker (h.fresh R a) }
  | .socket a => do
    let sockets ← WebSocket.step st h.sockets a
    return { h with sockets := sockets, feeds := join h.feeds a }
  | .attach i => do
    let handler ← h.sockets.handlers[i]?
    let f ← h.feeds[i]?
    if handler.place.subscribed then
      return { h with
        feeds := h.feeds.set i { f with history := f.history.attach (h.published R).length }
        broker := B.subscribe i f.request.fullChannel h.broker }
    else none
  | .lose i => do
    let _ ← h.feeds[i]?
    return { h with broker := B.lose i h.broker }
  | .pump i p => do
    let handler ← h.sockets.handlers[i]?
    let f ← h.feeds[i]?
    if handler.place.pumps p then
      let received := receive h.broker i p
      let f' ← f.pump received.1 p
      return { h with feeds := h.feeds.set i f', broker := received.2 }
    else none

abbrev run (h : Hub B) (es : List Event) : Option (Hub B) := Runs.run (step st R) h es

end Hub

end WebSocket

end Redgw
