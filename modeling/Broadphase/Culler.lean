import Broadphase.Camera
import Broadphase.Index

/-!
Visibility from frame to frame. A culler asks an index for what a camera sees
and lets the answer be written into a buffer that it keeps. When the buffer is
too small, the answer is taken without a limit and the buffer grows to the next
power of two, so that the following frame fits.
-/

namespace Broadphase

/-- A culler with its buffer. -/
structure Culler where
  /-- The buffer; the last answer stands at its front. -/
  scratch : Array Handle
  visibleCount : Nat
  /-- How many answers did not fit. -/
  overflows : Nat
  deriving DecidableEq

namespace Culler

def source : String := "galaxy3d::FrustumCuller"

/-- The capacity of a culler for which none is given. -/
def defaultCapacity : Nat := 1024

def ofCapacity (capacity : Nat) : Culler := ⟨Array.replicate capacity default, 0, 0⟩

/-- The most handles that a buffer can have: one less than `2 ^ 60`, as no memory of `2 ^ 63` bytes
or more is allocated and a handle takes eight. An index would run into this before its answers
do, since it keeps a box for each entity. -/
def greatestCapacity : Nat := 1152921504606846975

/-- A buffer was asked for that is larger than any can be. -/
structure CapacityOverflow where
  capacity : Nat
  deriving DecidableEq, Repr

def CapacityOverflow.message (_ : CapacityOverflow) : String := "capacity overflow"

def create (capacity : Nat) : Except CapacityOverflow Culler :=
  if capacity ≤ greatestCapacity then .ok (ofCapacity capacity) else .error ⟨capacity⟩

instance : Inhabited Culler := ⟨ofCapacity defaultCapacity⟩

def capacity (c : Culler) : Nat := c.scratch.size

def visible (c : Culler) : Array Handle := c.scratch.take c.visibleCount

/-- The least power of two that is not below `n`. -/
def leastPowerOfTwo (n : Nat) : Nat := if n ≤ 1 then 1 else Nat.pow 2 ((n - 1).log2 + 1)

def growthReport (count capacity : Nat) : Entry where
  severity := .debug
  source := source
  message := s!"Visible set of {count} overflowed, scratch grown to {capacity}"

/-- The number of an answer as a size. A negative one would wrap around. -/
def sizeOfCount (count : Int32) : Nat := count.toInt64.toUInt64.toNat

/-- Find what a camera sees. The answer is what is visible afterwards. -/
def cull {ι : Type} [SpatialIndex ι] (c : Culler) (camera : Camera) (index : ι)
    (sort : List Handle → List Handle := Handle.sort) : Culler × List Entry :=
  let region := Region.frustum camera.frustum
  let answer := SpatialIndex.querySpan index region c.scratch sort
  let count := SpatialIndex.spanCount answer
  if count = SpatialIndex.overflowCount then
    let seen := SpatialIndex.queryInto index region #[] sort
    let capacity := leastPowerOfTwo seen.size
    ({ scratch := seen ++ Array.replicate (capacity - seen.size) default
       visibleCount := seen.size
       overflows := c.overflows + 1 },
      [growthReport seen.size capacity])
  else
    ({ c with
       scratch := answer.elim c.scratch Prod.snd
       visibleCount := sizeOfCount count }, [])

end Culler

end Broadphase
