import Redgw.Json
import Redgw.Lib.Dict

/-! # Objects in JSON

Texts and flat objects are read back as they were written. -/

namespace Redgw

/-- The character that stands behind a backslash as this one, `\u` apart. -/
def unescape : Char → Option Char
  | '"' => some '"'
  | '\\' => some '\\'
  | '/' => some '/'
  | 'n' => some '\n'
  | 'r' => some '\r'
  | 't' => some '\t'
  | 'b' => some (.ofNat 8)
  | 'f' => some (.ofNat 12)
  | _ => none

def hexValue (c : Char) : Nat := if c.isDigit then c.toNat - 48 else c.toNat - 87

/-- The rest of a text behind its opening quote, and what follows the text. -/
def readString : List Char → Option (List Char × List Char)
  | [] => none
  | '"' :: rest => some ([], rest)
  | '\\' :: 'u' :: a :: b :: c :: d :: rest =>
    let code := ((hexValue a * 16 + hexValue b) * 16 + hexValue c) * 16 + hexValue d
    (readString rest).map fun x => (.ofNat code :: x.1, x.2)
  | '\\' :: e :: rest => do
    let c ← unescape e
    let x ← readString rest
    return (c :: x.1, x.2)
  | c :: rest => (readString rest).map fun x => (c :: x.1, x.2)

/-- A text or `null`. -/
def readValue : List Char → Option (Json × List Char)
  | '"' :: rest => (readString rest).map fun x => (.str (.ofList x.1), x.2)
  | 'n' :: 'u' :: 'l' :: 'l' :: rest => some (.null, rest)
  | _ => none

/-- The members of an object up to its closing brace, at most so many. -/
def readMembers : Nat → List Char → Option (List (String × Json))
  | n + 1, '"' :: cs => do
    let (name, cs) ← readString cs
    let ':' :: cs := cs | none
    let (value, cs) ← readValue cs
    match cs with
    | ['}'] => some [(.ofList name, value)]
    | ',' :: cs => (readMembers n cs).map ((.ofList name, value) :: ·)
    | _ => none
  | _, _ => none

/-- `json.loads` on the text of an object whose values are texts or `null`, without blanks. -/
def readObject (text : String) : Option (Dict Json) :=
  match text.toList with
  | '{' :: cs => (readMembers cs.length cs).map Dict.ofList
  | _ => none

/-! ### What was written is read back -/

theorem hexValue_hexDigit {n : Nat} (h : n < 16) : hexValue (hexDigit n) = n := by
  have hall : ∀ m : Fin 16, hexValue (hexDigit m.val) = m.val := by decide
  exact hall ⟨n, h⟩

theorem readString_escapeChar (c : Char) (cs : List Char) :
    readString (escapeChar c ++ cs) = (readString cs).map fun x => (c :: x.1, x.2) := by
  have hcode : ∀ n : Nat, c.toNat = n → c = Char.ofNat n := by
    rintro n rfl
    exact (Char.ofNat_toNat c).symm
  unfold escapeChar
  by_cases hquote : c = '"'
  · subst hquote
    cases hcs : readString cs <;> simp [readString, unescape, hcs]
  rw [if_neg hquote]
  by_cases hslash : c = '\\'
  · subst hslash
    cases hcs : readString cs <;> simp [readString, unescape, hcs]
  rw [if_neg hslash]
  by_cases hn : c = '\n'
  · subst hn
    cases hcs : readString cs <;> simp [readString, unescape, hcs]
  rw [if_neg hn]
  by_cases hr : c = '\r'
  · subst hr
    cases hcs : readString cs <;> simp [readString, unescape, hcs]
  rw [if_neg hr]
  by_cases ht : c = '\t'
  · subst ht
    cases hcs : readString cs <;> simp [readString, unescape, hcs]
  rw [if_neg ht]
  by_cases hb : c.toNat = 8
  · rw [if_pos hb, hcode 8 hb]
    cases hcs : readString cs <;> simp [readString, unescape, hcs]
  rw [if_neg hb]
  by_cases hf : c.toNat = 12
  · rw [if_pos hf, hcode 12 hf]
    cases hcs : readString cs <;> simp [readString, unescape, hcs]
  rw [if_neg hf]
  by_cases hctrl : c.toNat < 32
  · rw [if_pos hctrl]
    have hhigh : hexValue (hexDigit (c.toNat / 16)) = c.toNat / 16 := hexValue_hexDigit (by omega)
    have hlow : hexValue (hexDigit (c.toNat % 16)) = c.toNat % 16 := hexValue_hexDigit (by omega)
    have hzero : hexValue '0' = 0 := by decide
    have hsum : c.toNat / 16 * 16 + c.toNat % 16 = c.toNat := by omega
    simp [readString, hhigh, hlow, hzero, hsum]
  · rw [if_neg hctrl]
    simp [readString, hslash]

theorem readString_escaped (s rest : List Char) :
    readString (s.flatMap escapeChar ++ '"' :: rest) = some (s, rest) := by
  induction s with
  | nil => rfl
  | cons c s ih => rw [List.flatMap_cons, List.append_assoc, readString_escapeChar, ih, Option.map_some]

theorem jsonString_toList (s : String) : (jsonString s).toList = '"' :: (s.toList.flatMap escapeChar ++ ['"']) := by
  simp [jsonString, String.toList_append]

theorem readValue_jsonString (s : String) (rest : List Char) :
    readValue ((jsonString s).toList ++ rest) = some (.str s, rest) := by
  rw [jsonString_toList]
  simp [readValue, readString_escaped]

theorem readValue_null (rest : List Char) : readValue ("null".toList ++ rest) = some (.null, rest) := rfl

section Members
variable {n : Nat} {name : String} {v : List Char} {value : Json}

/-- A member that others follow. -/
theorem readMembers_cons (hv : ∀ rest, readValue (v ++ rest) = some (value, rest)) (cs : List Char) :
    readMembers (n + 1) ((jsonString name).toList ++ ':' :: (v ++ ',' :: cs)) =
      (readMembers n cs).map ((name, value) :: ·) := by
  rw [jsonString_toList, List.cons_append, List.append_assoc, readMembers]
  simp [readString_escaped, hv]

/-- The last member. -/
theorem readMembers_last (hv : ∀ rest, readValue (v ++ rest) = some (value, rest)) :
    readMembers (n + 1) ((jsonString name).toList ++ ':' :: (v ++ ['}'])) = some [(name, value)] := by
  rw [jsonString_toList, List.cons_append, List.append_assoc, readMembers]
  simp [readString_escaped, hv]

/-- What is long enough is read with any greater number of members. -/
theorem readObject_of {text : String} {cs : List Char} {members : List (String × Json)} (h : text.toList = '{' :: cs)
    (hlen : n ≤ cs.length) (hmembers : ∀ m, readMembers (m + n) cs = some members) :
    readObject text = some (Dict.ofList members) := by
  obtain ⟨m, hm⟩ := Nat.exists_eq_add_of_le' hlen
  unfold readObject
  rw [h]
  show (readMembers cs.length cs).map Dict.ofList = _
  rw [hm, hmembers]
  rfl

end Members

end Redgw
