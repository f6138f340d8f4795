import Redgw.Asgi
import Redgw.Keys
import Redgw.Metrics

/-! # The metrics middleware

It counts a request when the last part of its response has been sent. -/

namespace Redgw
open Redis

/-- What follows the first of the two markers that stands at the beginning of the text. -/
def nsMarker (s : List Char) : Option (List Char) :=
  if "/api/v1/ns/".toList.isPrefixOf s then some (s.drop 11)
  else if "/api/v1/ws/".toList.isPrefixOf s then some (s.drop 11)
  else none

/-- `_ns_re.search`: the first marker that a segment and a slash follow. -/
def nsSearch : List Char → Option (List Char)
  | [] => none
  | c :: s =>
    match (nsMarker (c :: s)).bind (Text.cut '/') with
    | some (seg, _) => if seg.isEmpty then nsSearch s else some seg
    | none => nsSearch s

/-- `_valid_ns_re.match`: the final `$` also matches before a newline at the end. -/
def validNsRe (s : List Char) : Bool := nsRe s || (s.getLast? == some '\n' && nsRe s.dropLast)

/-- The namespace that the request is counted for, the empty text when it is for none. -/
def metricsNs (path : String) : String :=
  match nsSearch path.toList with
  | some seg => if validNsRe seg then .ofList seg else ""
  | none => ""

/-- What the wrapper of `send` keeps. -/
structure MetricsState where
  statusCode : Nat
  sent : List Message
  recorded : List Nat

def MetricsState.onSend (s : MetricsState) (m : Message) : MetricsState :=
  match m with
  | .start status _ => { s with statusCode := status, sent := s.sent ++ [m] }
  | .body moreBody =>
    { s with
      sent := s.sent ++ [m]
      recorded := if moreBody then s.recorded else s.recorded ++ [s.statusCode] }

def MetricsState.act (s : MetricsState) : Act → MetricsState
  | .send m => s.onSend m
  | _ => s

/-- `MetricsMiddleware.__call__`: the messages passed on, and the status of each recorded request. -/
def metricsMiddleware (b : Behaviour) : MetricsState := b.acts.foldl MetricsState.act ⟨500, [], []⟩

/-- The pipelines that the middleware starts for a request. -/
def metricsCommands (scope : Scope) (durationMs : Rat) (b : Behaviour) : List (String × KeyCmd) :=
  (metricsMiddleware b).recorded.flatMap fun status =>
    recordRequest status durationMs (metricsNs scope.path) (b.clientId.getD "")

end Redgw
