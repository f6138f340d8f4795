import Mathlib.Data.List.Basic

/-! # A list with books

Elements come and go at both ends of a list, and the books say what has come and what has gone in which
way. Nothing is lost or doubled; where elements come at one end and go at the other, they go in the order
in which they came. -/

/-- The elements, those that have come, and those that have gone with the way they took. -/
structure Books (W A : Type) where
  items : List A
  arrived : List A
  gone : List (W × A)

namespace Books

variable {W A : Type}

def pushLeft (a : A) (b : Books W A) : Books W A := { b with items := a :: b.items, arrived := b.arrived ++ [a] }

def pushRight (a : A) (b : Books W A) : Books W A := { b with items := b.items ++ [a], arrived := b.arrived ++ [a] }

/-- The first `n` elements go. -/
def takeLeft (way : W) (n : Nat) (b : Books W A) : Books W A :=
  { b with items := b.items.drop n, gone := b.gone ++ (b.items.take n).map fun a => (way, a) }

/-- The last element goes. -/
def takeRight (way : W) (b : Books W A) : Books W A :=
  { b with items := b.items.dropLast, gone := b.gone ++ b.items.getLast?.toList.map fun a => (way, a) }

/-- What was there at first and what has come is what has gone and what is there. -/
def Conserves (start : List A) (b : Books W A) : Prop := (start ++ b.arrived).Perm (b.gone.map (·.2) ++ b.items)

/-- What was there at first and what has come has gone in this order, up to what is there. -/
def InOrder (start : List A) (b : Books W A) : Prop := start ++ b.arrived = b.gone.map (·.2) ++ b.items

section Rules
variable {start : List A} {b : Books W A}

theorem Conserves.pushLeft (h : b.Conserves start) (a : A) : (b.pushLeft a).Conserves start := by
  unfold Conserves Books.pushLeft at *
  rw [← List.append_assoc]
  calc (start ++ b.arrived ++ [a]).Perm (b.gone.map (·.2) ++ b.items ++ [a]) := h.append_right [a]
    _ = b.gone.map (·.2) ++ (b.items ++ [a]) := List.append_assoc ..
    List.Perm _ (b.gone.map (·.2) ++ ([a] ++ b.items)) := List.Perm.append_left _ List.perm_append_comm

theorem Conserves.pushRight (h : b.Conserves start) (a : A) : (b.pushRight a).Conserves start := by
  unfold Conserves Books.pushRight at *
  rw [← List.append_assoc, ← List.append_assoc]
  exact h.append_right [a]

/-- What goes is put down as it is. -/
theorem map_gone (way : W) (xs : List A) : (xs.map fun a => (way, a)).map (·.2) = xs := by
  rw [List.map_map]
  exact List.map_id xs

theorem takeLeft_same (way : W) (n : Nat) (b : Books W A) :
    (b.takeLeft way n).gone.map (·.2) ++ (b.takeLeft way n).items = b.gone.map (·.2) ++ b.items := by
  unfold takeLeft
  dsimp only
  rw [List.map_append, map_gone, List.append_assoc, List.take_append_drop]

theorem takeRight_same (way : W) (b : Books W A) :
    (b.takeRight way).gone.map (·.2) ++ (b.takeRight way).items =
      b.gone.map (·.2) ++ (b.items.getLast?.toList ++ b.items.dropLast) := by
  unfold takeRight
  dsimp only
  rw [List.map_append, map_gone, List.append_assoc]

theorem Conserves.takeLeft (h : b.Conserves start) (way : W) (n : Nat) : (b.takeLeft way n).Conserves start := by
  unfold Conserves
  rw [takeLeft_same]
  exact h

theorem Conserves.takeRight (h : b.Conserves start) (way : W) : (b.takeRight way).Conserves start := by
  unfold Conserves
  rw [takeRight_same]
  refine List.Perm.trans h (List.Perm.append_left _ ?_)
  rcases List.eq_nil_or_concat' b.items with hnil | ⟨xs, x, hx⟩
  · rw [hnil]
    exact List.Perm.refl []
  · rw [hx, List.getLast?_concat, List.dropLast_concat]
    exact List.perm_append_comm

theorem InOrder.pushRight (h : b.InOrder start) (a : A) : (b.pushRight a).InOrder start := by
  unfold InOrder Books.pushRight at *
  rw [← List.append_assoc, ← List.append_assoc, h]

theorem InOrder.takeLeft (h : b.InOrder start) (way : W) (n : Nat) : (b.takeLeft way n).InOrder start := by
  unfold InOrder
  rw [takeLeft_same]
  exact h

end Rules

end Books
