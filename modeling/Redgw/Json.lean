import Mathlib.Data.Rat.Defs

/-! # Values

The values that travel between Redis, the handlers and the clients: what redis-py hands out, and what
a response body is made of. -/

namespace Redgw

/-- A double, as an exact number or one of the three values that are none. -/
inductive Score
  | nan
  | inf (negative : Bool)
  | fin (q : Rat)
deriving DecidableEq, Repr

namespace Score

/-- `math.isfinite`. -/
def isfinite : Score → Bool
  | .fin _ => true
  | _ => false

/-- The largest finite double. -/
def largest : Rat := (2 ^ 53 - 1) * 2 ^ 971

/-- An exact number as a double: beyond the largest finite double it is infinite. -/
def ofRat (q : Rat) : Score :=
  if largest < q then .inf false else if q < -largest then .inf true else .fin q

def add : Score → Score → Score
  | .fin a, .fin b => ofRat (a + b)
  | .nan, _ => .nan
  | _, .nan => .nan
  | .inf a, .inf b => if a = b then .inf a else .nan
  | .inf a, _ => .inf a
  | _, .inf b => .inf b

/-- `a <= b`; no comparison with nan holds. -/
def le : Score → Score → Bool
  | .nan, _ => false
  | _, .nan => false
  | .inf true, _ => true
  | _, .inf false => true
  | .fin a, .fin b => decide (a ≤ b)
  | _, _ => false

end Score

/-- A JSON value, and a Python value that a Redis reply decodes to. -/
inductive Json
  | null
  | bool (b : Bool)
  | int (n : Int)
  | float (x : Score)
  | str (s : String)
  | arr (xs : List Json)
  | obj (fields : List (String × Json))

namespace Json

/-- Python's truth value. -/
def truthy : Json → Bool
  | .null => false
  | .bool b => b
  | .int n => n ≠ 0
  | .float x => x ≠ .fin 0
  | .str s => s ≠ ""
  | .arr xs => !xs.isEmpty
  | .obj fields => !fields.isEmpty

def isNone : Json → Bool
  | .null => true
  | _ => false

def isInt (n : Int) : Json → Bool
  | .int m => m == n
  | _ => false

/-- `len(x)` of a decoded reply. -/
def len : Json → Int
  | .str s => s.length
  | .arr xs => xs.length
  | .obj fields => fields.length
  | _ => 0

/-- The items that `for x in v` visits. -/
def items : Json → List Json
  | .arr xs => xs
  | .obj fields => fields.map fun f => .str f.1
  | _ => []

/-- `v[name]`, `None` when there is none. -/
def field (name : String) : Json → Json
  | .obj fields => (fields.lookup name).getD .null
  | _ => .null

def text : Json → String
  | .str s => s
  | _ => ""

/-- `v[i]` -/
def nth (i : Nat) (v : Json) : Json := v.items[i]?.getD .null

/-- `str(v)` of a reply that is a text or an integer. -/
def pyStr : Json → String
  | .int n => toString n
  | v => v.text

/-- `sorted(v)` of a set of strings. -/
def sorted (v : Json) : Json :=
  .arr ((v.items.map text).mergeSort (fun a b => decide (a ≤ b)) |>.map .str)

end Json

/-! ### Text in JSON -/

def hexDigit (n : Nat) : Char := (Nat.digitChar n)

/-- A character of a JSON text, escaped where it has to be. -/
def escapeChar (c : Char) : List Char :=
  if c = '"' then ['\\', '"']
  else if c = '\\' then ['\\', '\\']
  else if c = '\n' then ['\\', 'n']
  else if c = '\r' then ['\\', 'r']
  else if c = '\t' then ['\\', 't']
  else if c.toNat = 8 then ['\\', 'b']
  else if c.toNat = 12 then ['\\', 'f']
  else if c.toNat < 32 then ['\\', 'u', '0', '0', hexDigit (c.toNat / 16), hexDigit (c.toNat % 16)]
  else [c]

/-- `json.dumps(s, ensure_ascii=False)` -/
def jsonString (s : String) : String := "\"" ++ .ofList (s.toList.flatMap escapeChar) ++ "\""

end Redgw
