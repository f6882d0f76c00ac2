/-!
Cells of a uniform grid and blocks of cells. Coordinates are 32-bit integers,
and a block may span all of them, so that the number of its cells need not fit
into a word of 64 bits.
-/

namespace Broadphase

structure CellKey where
  x : Int32
  y : Int32
  z : Int32
  deriving DecidableEq, Repr

namespace CellKey

/-- The last coordinate decides first. -/
instance : Ord CellKey :=
  ⟨compareLex (compareOn CellKey.z) (compareLex (compareOn CellKey.y) (compareOn CellKey.x))⟩

instance : Std.TransOrd CellKey :=
  inferInstanceAs
    (Std.TransCmp
      (compareLex (compareOn CellKey.z) (compareLex (compareOn CellKey.y) (compareOn CellKey.x))))

instance : Std.LawfulEqOrd CellKey where
  eq_of_compare {a b} h := by
    have hz : compare a.z b.z = .eq := (Ordering.then_eq_eq.mp h).1
    have hyx : compare a.y b.y = .eq ∧ compare a.x b.x = .eq :=
      Ordering.then_eq_eq.mp (Ordering.then_eq_eq.mp h).2
    cases a
    cases b
    exact congr (congr (congrArg mk (Std.LawfulEqOrd.eq_of_compare hyx.2))
      (Std.LawfulEqOrd.eq_of_compare hyx.1)) (Std.LawfulEqOrd.eq_of_compare hz)

def text (k : CellKey) : String := s!"CellKey({k.x}, {k.y}, {k.z})"

end CellKey

/-- The block of the cells between two corners, both included. It is empty when
the corners are in reverse order on some axis. -/
structure CellRange where
  min : CellKey
  max : CellKey
  deriving DecidableEq, Repr

namespace CellRange

def isEmpty (r : CellRange) : Bool :=
  r.max.x < r.min.x || r.max.y < r.min.y || r.max.z < r.min.z

def isSingle (r : CellRange) : Bool := r.min = r.max

def contains (r : CellRange) (k : CellKey) : Bool :=
  r.min.x ≤ k.x && k.x ≤ r.max.x
    && r.min.y ≤ k.y && k.y ≤ r.max.y
    && r.min.z ≤ k.z && k.z ≤ r.max.z

def upper (a b : Int32) : Int32 := if a ≤ b then b else a

def lower (a b : Int32) : Int32 := if a ≤ b then a else b

def intersection (r s : CellRange) : CellRange :=
  ⟨⟨upper r.min.x s.min.x, upper r.min.y s.min.y, upper r.min.z s.min.z⟩,
    ⟨lower r.max.x s.max.x, lower r.max.y s.max.y, lower r.max.z s.max.z⟩⟩

/-- The number of coordinates from `lo` to `hi`. -/
def width (lo hi : Int32) : Nat := (hi.toInt - lo.toInt + 1).toNat

/-- The number of coordinates from `lo` to `hi` as a word, which is right unless
`hi` is below `lo`. -/
def widthWord (lo hi : Int32) : UInt64 := (hi.toInt64 - lo.toInt64 + 1).toUInt64

/-- The product of two words, cut off at the greatest word. -/
def cutProduct (a b : UInt64) : UInt64 :=
  if a.toNat * b.toNat < UInt64.size then a * b else UInt64.ofNat (UInt64.size - 1)

/-- The number of cells in the block as a word, cut off at the greatest one. -/
def countWord (r : CellRange) : UInt64 :=
  if r.isEmpty then 0
  else
    cutProduct (cutProduct (widthWord r.min.x r.max.x) (widthWord r.min.y r.max.y))
      (widthWord r.min.z r.max.z)

def count (r : CellRange) : Nat := r.countWord.toNat

end CellRange

end Broadphase
