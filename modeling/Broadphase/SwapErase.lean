/-!
Removal from an array in which order does not matter for meaning: the last
element takes the place of the removed one, so nothing else moves.
-/

namespace Broadphase

variable {α : Type}

/-- Remove the element at a position by moving the last element there. A
position past the end removes nothing. -/
def swapEraseAt (xs : Array α) (i : Nat) : Array α :=
  if h : i < xs.size then (xs.swap i (xs.size - 1) h (Nat.sub_one_lt_of_lt h)).pop else xs

/-- Remove the first occurrence of an element, if there is one. -/
def swapErase [BEq α] (xs : Array α) (x : α) : Array α :=
  match xs.finIdxOf? x with
  | some i => swapEraseAt xs i
  | none => xs

end Broadphase
