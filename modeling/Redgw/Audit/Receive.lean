import Redgw.Audit.Middleware
import Redgw.Lib.Prog

/-! # Applications that receive

An application asks its surroundings for the next message of the server, leaves events and sends messages. The
middleware puts its own `receive` and `send` around those of the server. -/

namespace Redgw

/-- What the server hands to an application. -/
inductive ServerMessage
  | request (body : Option Bytes) (moreBody : Bool)
  | disconnect
deriving DecidableEq

namespace ServerMessage

/-- `msg.get("body", b"") or b""` -/
def chunk : ServerMessage → Bytes
  | request body _ => body.getD []
  | disconnect => []

/-- What receiving the message shows to the middleware. -/
def acts : ServerMessage → List Act
  | request body _ => [.receive (body.getD [])]
  | disconnect => []

end ServerMessage

inductive AppCall
  | receive
  | setPendingEvent (event : String) (errorCode : Option String)
  | send (m : Message)

def AppCall.Reply : AppCall → Type
  | receive => ServerMessage
  | setPendingEvent _ _ | send _ => Unit

/-- An application handles one request and returns or raises. -/
abbrev App := Prog AppCall AppCall.Reply Unit Unit

/-! ### Without the middleware -/

/-- The messages that the server has left, those that the application got, and what it did. -/
structure Exchange where
  incoming : List ServerMessage
  received : List ServerMessage
  acts : List Act

/-- After its last message the server has only the disconnect to report. -/
def nextMessage : List ServerMessage → ServerMessage × List ServerMessage
  | [] => (.disconnect, [])
  | m :: ms => (m, ms)

/-- The server's own `receive` and `send`. -/
def Exchange.answer : (c : AppCall) → Unit → Exchange → c.Reply × Exchange
  | .receive, _, s =>
    let (m, incoming) := nextMessage s.incoming
    (m, ⟨incoming, s.received ++ [m], s.acts ++ m.acts⟩)
  | .setPendingEvent event errorCode, _, s => ((), { s with acts := s.acts ++ [.setPendingEvent event errorCode] })
  | .send m, _, s => ((), { s with acts := s.acts ++ [.send m] })

def App.exchange (app : App) (msgs : List ServerMessage) : Except Unit Unit × Exchange :=
  app.run Exchange.answer (fun _ => ()) ⟨msgs, [], []⟩

/-- The run of the application, as the middleware sees it. -/
def App.behaviour (app : App) (msgs : List ServerMessage) (clientId pathKey : Option String) : Behaviour where
  acts := (app.exchange msgs).2.acts
  raised := match (app.exchange msgs).1 with
    | .ok _ => false
    | .error _ => true
  clientId := clientId
  pathKey := pathKey

/-! ### Under the middleware -/

structure Wrapped where
  incoming : List ServerMessage
  received : List ServerMessage
  audit : AuditState

/-- `receive_wrapper` -/
def AuditState.receiveWrapper (s : AuditState) (m : ServerMessage) : ServerMessage × AuditState :=
  match m with
  | .request body _ => (m, s.onReceive (body.getD []))
  | .disconnect => (m, s)

/-- `receive` and `send` as the middleware puts them around the server's. -/
def Wrapped.answer (requestId : String) : (c : AppCall) → Unit → Wrapped → c.Reply × Wrapped
  | .receive, _, s =>
    let (m, incoming) := nextMessage s.incoming
    let (m, audit) := s.audit.receiveWrapper m
    (m, ⟨incoming, s.received ++ [m], audit⟩)
  | .setPendingEvent event errorCode, _, s => ((), { s with audit := { s.audit with pending := some (event, errorCode) } })
  | .send m, _, s => ((), { s with audit := s.audit.onSend requestId m })

/-- The application inside the middleware, for a request that is captured. -/
def App.wrapped (app : App) (requestId : String) (pending : Pending) (msgs : List ServerMessage) :
    Except Unit Unit × Wrapped :=
  app.run (Wrapped.answer requestId) (fun _ => ()) ⟨msgs, [], .init pending⟩

end Redgw
