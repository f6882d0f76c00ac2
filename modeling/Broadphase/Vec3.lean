import Broadphase.Scalar

/-!
Vectors of three binary32 components. Operations act on each component, except
the scalar product, whose sum is taken from left to right.
-/

namespace Broadphase

/-- A point or an extent in space. -/
structure Vec3 where
  x : Float32
  y : Float32
  z : Float32
  deriving BEq, DecidableEq

namespace Vec3

def splat (s : Float32) : Vec3 := ⟨s, s, s⟩

def zero : Vec3 := splat 0

/-- The vector built from one binary operation on each pair of components. -/
def zipWith (f : Float32 → Float32 → Float32) (a b : Vec3) : Vec3 :=
  ⟨f a.x b.x, f a.y b.y, f a.z b.z⟩

instance : Inhabited Vec3 := ⟨zero⟩
instance : Add Vec3 := ⟨zipWith (· + ·)⟩
instance : Sub Vec3 := ⟨zipWith (· - ·)⟩

def scale (a : Vec3) (s : Float32) : Vec3 := ⟨a.x * s, a.y * s, a.z * s⟩

def shrink (a : Vec3) (s : Float32) : Vec3 := ⟨a.x / s, a.y / s, a.z / s⟩

def lesser (a b : Vec3) : Vec3 := zipWith Scalar.lesser a b

def greater (a b : Vec3) : Vec3 := zipWith Scalar.greater a b

/-- The scalar product, summed as `(x + y) + z`. -/
def dot (a b : Vec3) : Float32 := a.x * b.x + a.y * b.y + a.z * b.z

def length (a : Vec3) : Float32 := (a.dot a).sqrt

def distanceSquared (a b : Vec3) : Float32 := (a - b).dot (a - b)

/-- The point of the box `lo`, `hi` nearest to `a`: raised to `lo`, then
lowered to `hi`. -/
def clamp (a lo hi : Vec3) : Vec3 := (a.greater lo).lesser hi

def isFinite (a : Vec3) : Bool := a.x.isFinite && a.y.isFinite && a.z.isFinite

inductive Axis where
  | x
  | y
  | z
  deriving DecidableEq

def along (a : Vec3) : Axis → Float32
  | .x => a.x
  | .y => a.y
  | .z => a.z

end Vec3

end Broadphase
