import Mathlib.Data.List.Basic

/-! # Percent-encoding

Bytes outside a set of plain ones are written as `%` and two hexadecimal digits. Decoding leaves a `%` alone
that no two digits follow. -/

namespace Percent

/-- Letters, digits and `-._~`. -/
def unreserved (b : UInt8) : Bool :=
  (48 ≤ b && b ≤ 57) || (65 ≤ b && b ≤ 90) || (97 ≤ b && b ≤ 122) || b == 45 || b == 46 || b == 95 || b == 126

def hexDigit (n : Nat) : UInt8 := if n < 10 then .ofNat (48 + n) else .ofNat (55 + n)

def hexValue (b : UInt8) : Option Nat :=
  if 48 ≤ b && b ≤ 57 then some (b.toNat - 48)
  else if 65 ≤ b && b ≤ 70 then some (b.toNat - 55)
  else if 97 ≤ b && b ≤ 102 then some (b.toNat - 87)
  else none

def encodeByte (b : UInt8) : List UInt8 :=
  if unreserved b then [b] else [37, hexDigit (b.toNat / 16), hexDigit (b.toNat % 16)]

def encode (bs : List UInt8) : List UInt8 := bs.flatMap encodeByte

def decode : List UInt8 → List UInt8
  | [] => []
  | 37 :: a :: b :: bs =>
    match hexValue a, hexValue b with
    | some x, some y => .ofNat (16 * x + y) :: decode bs
    | _, _ => 37 :: decode (a :: b :: bs)
  | b :: bs => b :: decode bs

theorem hexValue_hexDigit : ∀ n < 16, hexValue (hexDigit n) = some n := by decide

theorem decode_plain {b : UInt8} (h : b ≠ 37) (bs : List UInt8) : decode (b :: bs) = b :: decode bs := by
  rw [decode]
  rintro _ _ _ rfl
  exact absurd rfl h

theorem decode_escaped {x y : Nat} (hx : x < 16) (hy : y < 16) (bs : List UInt8) :
    decode (37 :: hexDigit x :: hexDigit y :: bs) = .ofNat (16 * x + y) :: decode bs := by
  rw [decode, hexValue_hexDigit x hx, hexValue_hexDigit y hy]

theorem decode_encodeByte (b : UInt8) (bs : List UInt8) : decode (encodeByte b ++ bs) = b :: decode bs := by
  unfold encodeByte
  split
  · rename_i hplain
    refine decode_plain ?_ bs
    rintro rfl
    exact absurd hplain (by decide)
  · have hdigits : 16 * (b.toNat / 16) + b.toNat % 16 = b.toNat := Nat.div_add_mod ..
    have hlt := b.toNat_lt
    rw [List.cons_append, List.cons_append, List.cons_append, List.nil_append,
      decode_escaped (by omega) (Nat.mod_lt _ (by decide)), hdigits, UInt8.ofNat_toNat]

/-- What was encoded is decoded, whatever follows it. -/
theorem decode_encode (bs rest : List UInt8) : decode (encode bs ++ rest) = bs ++ decode rest := by
  induction bs with
  | nil => rfl
  | cons b bs ih =>
    unfold encode at ih ⊢
    rw [List.flatMap_cons, List.append_assoc, decode_encodeByte, ih]
    rfl

end Percent
