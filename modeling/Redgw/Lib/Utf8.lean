import Mathlib.Data.String.Basic

/-! # Classes of ASCII characters

A check that runs over the bytes of a UTF-8 text, and one that runs over its characters. -/

namespace Utf8

/-- Neither check lets anything pass beyond ASCII, and within it they judge alike. -/
structure SameClass (byte : UInt8 → Bool) (char : Char → Bool) : Prop where
  high : ∀ b : UInt8, 128 ≤ b.toNat → byte b = false
  beyond : ∀ c : Char, 128 ≤ c.toNat → char c = false
  ascii : ∀ c : Char, c.toNat < 128 → byte c.toUInt8 = char c

/-- Beyond ASCII a character has a byte with the top bit set. -/
theorem encode_high {c : Char} (h : c.utf8Size ≠ 1) : ∃ x : UInt8, x ||| 128 ∈ String.utf8EncodeChar c := by
  rcases c.utf8Size_eq with h₁ | h₂ | h₃ | h₄
  · exact absurd h₁ h
  · exact ⟨c.val.toUInt8 &&& 63, by rw [String.utf8EncodeChar_eq_cons_cons h₂]; simp⟩
  · exact ⟨c.val.toUInt8 &&& 63, by rw [String.utf8EncodeChar_eq_cons_cons_cons h₃]; simp⟩
  · exact ⟨c.val.toUInt8 &&& 63, by rw [String.utf8EncodeChar_eq_cons_cons_cons_cons h₄]; simp⟩

theorem utf8Size_eq_one {c : Char} : c.utf8Size = 1 ↔ c.toNat < 128 := by
  rw [Char.utf8Size_eq_one_iff, UInt32.le_iff_toNat_le]
  have hc : c.toNat = c.val.toNat := rfl
  have hmax : (127 : UInt32).toNat = 127 := rfl
  omega

section SameClass
variable {byte : UInt8 → Bool} {char : Char → Bool}

theorem SameClass.encode (h : SameClass byte char) (c : Char) : (String.utf8EncodeChar c).all byte = char c := by
  by_cases hc : c.toNat < 128
  · rw [String.utf8EncodeChar_eq_singleton (utf8Size_eq_one.mpr hc)]
    simp [h.ascii c hc]
  · obtain ⟨x, hx⟩ := encode_high (mt utf8Size_eq_one.mp hc)
    have hbyte : byte (x ||| 128) = false := h.high _ (by rw [UInt8.toNat_or]; exact Nat.right_le_or)
    rw [h.beyond c (Nat.le_of_not_lt hc)]
    exact List.all_eq_false.mpr ⟨_, hx, by simp [hbyte]⟩

theorem SameClass.all (h : SameClass byte char) (s : List Char) :
    (s.flatMap String.utf8EncodeChar).all byte = s.all char := by
  induction s with
  | nil => rfl
  | cons c s ih => rw [List.flatMap_cons, List.all_append, h.encode, ih, List.all_cons]

/-- A text of the class has as many bytes as characters. -/
theorem SameClass.length (h : SameClass byte char) {s : List Char} (hs : s.all char = true) :
    (s.flatMap String.utf8EncodeChar).length = s.length := by
  induction s with
  | nil => rfl
  | cons c s ih =>
    rw [List.all_cons, Bool.and_eq_true] at hs
    have hc : c.toNat < 128 := by
      by_contra hc
      rw [h.beyond c (Nat.le_of_not_lt hc)] at hs
      exact absurd hs.1 Bool.false_ne_true
    rw [List.flatMap_cons, List.length_append, String.length_utf8EncodeChar, utf8Size_eq_one.mpr hc, ih hs.2,
      List.length_cons, Nat.add_comm]

end SameClass

end Utf8
