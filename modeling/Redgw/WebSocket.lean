import Redgw.Auth
import Redgw.Lib.Runs

/-! # Subscriptions: `/ws/{ns}/subscribe/{channel}`

Each subscription has a Redis connection of its own, so there is a limit to them. A handler runs from one
`await` to the next, and between two of them any other handler may run. -/

namespace Redgw.WebSocket

def maxWsConnections : Int := 100

/-- What the client asks for. -/
structure Connect where
  ns : String
  channel : String
  apiKey : Option String
deriving DecidableEq

/-- `full_channel` -/
def Connect.fullChannel (c : Connect) : String := s!"{c.ns}:{c.channel}"

/-- The code and the reason with which a request is closed before the connections are counted. -/
def rejection (st : Settings) (c : Connect) : Option (Nat × String) :=
  match filterOr c.apiKey with
  | none => some (4001, "API key required")
  | some apiKey =>
    match resolveClient st apiKey with
    | none => some (4001, "Invalid API key")
    | some client =>
      if !checkAccess client c.ns "read" then some (4003, s!"Access to namespace '{c.ns}' denied")
      else match validateNs st.engine c.ns, validateKey st.engine c.channel with
        | .ok _, .ok _ => none
        | _, _ => some (4002, "Invalid namespace or channel name")

/-- The `await` that a handler is at. -/
inductive Place
  -- `ws.close` of a rejected request
  | closing
  -- `async with _ws_lock`
  | entering
  -- `ws.close` of a request beyond the limit, with the lock
  | closingFull
  | accepting
  | subscribing
  -- `asyncio.wait`, and the tasks that are cancelled after it
  | waiting
  | gathering
  -- `async with _ws_lock` at the end, with what has to be closed after it
  | leaving (subClient pubsub : Bool)
  | unsubscribing
  | closingPubsub
  | closingClient
  | finished
deriving DecidableEq

/-- `closeCode` is the code of a rejection. `took` and `gave` count how often the handler has taken a slot and
    given one back. -/
structure Handler where
  place : Place
  closeCode : Option Nat
  took : Nat
  gave : Nat
deriving DecidableEq

/-- How an `await` ends. Making the Redis client or its `PubSub` can fail right after `ws.accept`. -/
inductive Outcome
  | returns
  | raises
  | fromUrlRaises
  | pubsubRaises
deriving DecidableEq

structure State where
  wsConnectionCount : Int
  locked : Bool
  handlers : List Handler
deriving DecidableEq

def State.init : State := ⟨0, false, []⟩

/-- A handler that has checked its request. -/
def Handler.start (st : Settings) (c : Connect) : Handler :=
  match rejection st c with
  | some (code, _) => ⟨.closing, some code, 0, 0⟩
  | none => ⟨.entering, none, 0, 0⟩

/-- What comes after the slot has been given back. -/
def cleanup (subClient pubsub : Bool) : Place :=
  if pubsub then .unsubscribing else if subClient then .closingClient else .finished

/-- The counter, the lock and the handler after the `await` has ended. -/
def Handler.resume (count : Int) (locked : Bool) (h : Handler) (o : Outcome) : Option (Int × Bool × Handler) :=
  match h.place, o with
  | .closing, .returns | .closing, .raises => some (count, locked, { h with place := .finished })
  | .entering, .returns =>
    if locked then none
    else if maxWsConnections ≤ count then some (count, true, { h with place := .closingFull, closeCode := some 4029 })
    else some (count + 1, false, { h with place := .accepting, took := h.took + 1 })
  | .closingFull, .returns | .closingFull, .raises => some (count, false, { h with place := .finished })
  | .accepting, .returns => some (count, locked, { h with place := .subscribing })
  | .accepting, .raises | .accepting, .fromUrlRaises => some (count, locked, { h with place := .leaving false false })
  | .accepting, .pubsubRaises => some (count, locked, { h with place := .leaving true false })
  | .subscribing, .returns => some (count, locked, { h with place := .waiting })
  | .subscribing, .raises => some (count, locked, { h with place := .leaving true true })
  | .waiting, .returns | .waiting, .raises => some (count, locked, { h with place := .gathering })
  -- A client that has gone, an exception of the pump, or neither.
  | .gathering, .returns | .gathering, .raises => some (count, locked, { h with place := .leaving true true })
  | .leaving subClient pubsub, .returns =>
    if locked then none
    else some (count - 1, false, { h with place := cleanup subClient pubsub, gave := h.gave + 1 })
  | .unsubscribing, .returns => some (count, locked, { h with place := .closingPubsub })
  | .unsubscribing, .raises => some (count, locked, { h with place := .closingClient })
  | .closingPubsub, .returns | .closingPubsub, .raises => some (count, locked, { h with place := .closingClient })
  | .closingClient, .returns | .closingClient, .raises => some (count, locked, { h with place := .finished })
  | _, _ => none

inductive Action
  | connect (c : Connect)
  | resume (i : Nat) (o : Outcome)

/-- A client connects, or the `await` of one handler ends. -/
def step (st : Settings) (s : State) : Action → Option State
  | .connect c => some { s with handlers := s.handlers ++ [.start st c] }
  | .resume i o => do
    let h ← s.handlers[i]?
    let (count, locked, h') ← h.resume s.wsConnectionCount s.locked o
    return ⟨count, locked, s.handlers.set i h'⟩

abbrev run (st : Settings) (s : State) (as : List Action) : Option State := Runs.run (step st) s as

end Redgw.WebSocket
