import Broadphase.Box
import Broadphase.Matrix

/-!
The six half-spaces of a viewing volume. A point is visible when it lies on the
inner side of every plane. The box tests look at one corner per plane: a box is
rejected only when even the corner reaching farthest along the plane's normal
is outside, so they err on the side of reporting.
-/

namespace Broadphase

/-- The half-space of the points `p` with `normal · p + offset ≥ 0`. -/
structure Plane where
  normal : Vec3
  offset : Float32
  deriving BEq, DecidableEq

namespace Plane

def ofVec4 (v : Vec4) : Plane := ⟨v.xyz, v.w⟩

/-- How far a point lies on the inner side, in units of the normal's length. -/
def distance (p : Plane) (point : Vec3) : Float32 := p.normal.dot point + p.offset

/-- Scale the plane to a normal of length one. A normal without positive length
leaves the plane as it is. -/
def normalize (p : Plane) : Plane :=
  let length := p.normal.length
  if 0 < length then ⟨p.normal.shrink length, p.offset / length⟩ else p

/-- The corner of a box reaching farthest along the normal. -/
def nearCorner (p : Plane) (b : Box) : Vec3 :=
  ⟨if 0 ≤ p.normal.x then b.max.x else b.min.x,
    if 0 ≤ p.normal.y then b.max.y else b.min.y,
    if 0 ≤ p.normal.z then b.max.z else b.min.z⟩

/-- The corner of a box reaching farthest against the normal. -/
def farCorner (p : Plane) (b : Box) : Vec3 :=
  ⟨if 0 ≤ p.normal.x then b.min.x else b.max.x,
    if 0 ≤ p.normal.y then b.min.y else b.max.y,
    if 0 ≤ p.normal.z then b.min.z else b.max.z⟩

/-- Whether even the innermost corner of the box is outside. -/
def excludes (p : Plane) (b : Box) : Bool := p.distance (p.nearCorner b) < 0

/-- Whether the outermost corner of the box is outside. -/
def cuts (p : Plane) (b : Box) : Bool := p.distance (p.farCorner b) < 0

end Plane

/-- A viewing volume bounded by six inward-facing planes. -/
structure Frustum where
  left : Plane
  right : Plane
  bottom : Plane
  top : Plane
  near : Plane
  far : Plane
  deriving BEq, DecidableEq

/-- A plane was asked for by a number that no plane has. -/
structure PlaneIndexError where
  index : Nat
  deriving DecidableEq

def PlaneIndexError.message (e : PlaneIndexError) : String :=
  s!"index out of bounds: the len is 6 but the index is {e.index}"

namespace Frustum

def planes (f : Frustum) : List Plane :=
  [f.left, f.right, f.bottom, f.top, f.near, f.far]

def map (g : Plane → Plane) (f : Frustum) : Frustum :=
  ⟨g f.left, g f.right, g f.bottom, g f.top, g f.near, g f.far⟩

/-- Scale every plane so that distances are in units of space. -/
def normalize (f : Frustum) : Frustum := f.map Plane.normalize

/-- The volume seen through a view-projection matrix with depths from zero to
one: each plane is a sum or difference of the matrix's rows. -/
def ofViewProjection (m : Mat4) : Frustum :=
  let rowX := m.row Vec4.x
  let rowY := m.row Vec4.y
  let rowZ := m.row Vec4.z
  let rowW := m.row Vec4.w
  normalize
    { left := .ofVec4 (rowW + rowX)
      right := .ofVec4 (rowW - rowX)
      bottom := .ofVec4 (rowW + rowY)
      top := .ofVec4 (rowW - rowY)
      near := .ofVec4 rowZ
      far := .ofVec4 (rowW - rowZ) }

/-- The distance of a point from the plane of the given number, positive
inside. -/
def signedDistance (f : Frustum) (index : Nat) (point : Vec3) :
    Except PlaneIndexError Float32 :=
  match f.planes[index]? with
  | some plane => .ok (plane.distance point)
  | none => .error ⟨index⟩

def containsPoint (f : Frustum) (point : Vec3) : Bool :=
  f.planes.all fun plane => 0 ≤ plane.distance point

/-- Whether a ball comes within its radius of every half-space. A negative or
NaN radius meets nothing. -/
def intersectsSphere (f : Frustum) (center : Vec3) (radius : Float32) : Bool :=
  0 ≤ radius && f.planes.all fun plane => -radius ≤ plane.distance center

/-- Whether no plane has the whole box on its outer side. -/
def intersectsBox (f : Frustum) (b : Box) : Bool :=
  f.planes.all fun plane => !plane.excludes b

/-- The three-way test of a box: outside when some plane excludes it, inside
when no plane cuts it. -/
def classifyBox (f : Frustum) (b : Box) : Containment :=
  if f.planes.any (·.excludes b) then .outside
  else if f.planes.any (·.cuts b) then .partly
  else .inside

end Frustum

end Broadphase
