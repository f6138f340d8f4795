import Mathlib.Data.Rat.Defs
import Redgw.Config

/-! # Wrapped applications

A middleware sees the requests' scope and what the wrapped application does: the messages that it
receives and sends, and whether it returns or raises. -/

namespace Redgw

abbrev Bytes := List UInt8

structure Scope where
  method : String
  path : String
  headers : List (Bytes × Bytes)
  clientHost : Option String

inductive Message
  | start (status : Nat) (headers : List (Bytes × Bytes))
  | body (moreBody : Bool)
deriving DecidableEq

/-- What an application does, in order: it takes a message with a part of the request body, leaves an
    event for the audit line, or sends a message. -/
inductive Act
  | receive (chunk : Bytes)
  | setPendingEvent (event : String) (errorCode : Option String)
  | send (m : Message)

/-- A whole run of an application, with what it left in the scope: the authenticated client, and the
    path parameter `key` of the matched route. -/
structure Behaviour where
  acts : List Act
  raised : Bool
  clientId : Option String
  pathKey : Option String

/-- `bytes.decode("ascii", "ignore")` -/
def decodeAscii (bs : Bytes) : String := .ofList ((bs.filter (· < 128)).map fun b => Char.ofNat b.toNat)

def encodeAscii (s : String) : Bytes := (s.toList.filter (·.toNat < 128)).map fun c => c.toNat.toUInt8

def header (name : String) (headers : List (Bytes × Bytes)) : Option Bytes := headers.lookup (encodeAscii name)

end Redgw
