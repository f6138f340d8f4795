import Redgw.Json

/-! # Responses

Success bodies, and the exceptions that end a handler early. -/

namespace Redgw

/-- What ends a request early: an `HTTPException`, a body that fails its schema, or a `ResponseError` of
    Redis that the handler does not catch. -/
inductive Exn
  | http (status : Nat) (code message : String)
  | unprocessable
  | redis (message : String)
deriving DecidableEq, Repr

/-- A success body with its metadata. -/
def ok (data : Json) (ns key type : String) (ttl : Json := .int (-1)) : Json :=
  .obj [("ok", .bool true), ("data", data),
    ("meta", .obj [("ns", .str ns), ("key", .str key), ("type", .str type), ("ttl", ttl)])]

/-- A success body without metadata. -/
def okSimple (data : Json) : Json :=
  .obj [("ok", .bool true), ("data", data), ("meta", .null)]

def error (code message : String) (status : Nat := 400) : Exn := .http status code message

def notFound (key ns : String) : Exn :=
  error "KEY_NOT_FOUND" s!"Key '{key}' not found in namespace '{ns}'" 404

/-- `ttl if ttl != -2 else -1`: the code of a missing key is not passed on. -/
def normalizedTtl (ttl : Json) : Json := if ttl.isInt (-2) then .int (-1) else ttl

/-- An error body. -/
def errorBody (code message : String) : Json :=
  .obj [("ok", .bool false), ("error", .obj [("code", .str code), ("message", .str message)])]

/-- The answer to a request. -/
structure Response where
  status : Nat
  body : Json

/-- How the framework answers: the handler's result, an `HTTPException` with its status, 422 for a body
    that fails its schema (the report of the failed checks is left out), and 500 for any other exception
    (`global_exception_handler`). -/
def Response.of : Except Exn Json → Response
  | .ok body => ⟨200, body⟩
  | .error (.http status code message) => ⟨status, errorBody code message⟩
  | .error .unprocessable => ⟨422, .obj [("detail", .arr [])]⟩
  | .error (.redis _) => ⟨500, errorBody "INTERNAL_ERROR" "Internal server error"⟩

end Redgw
