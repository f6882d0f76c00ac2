import Broadphase.Vec3

/-!
Axis-aligned boxes and their tests. Boxes are closed: touching counts as
overlapping, and a box touching the boundary from inside is contained. That the
lower corner is below the upper one is the caller's promise and is never
checked.
-/

namespace Broadphase

/-- The verdict of testing a volume against a region: apart from it, wholly in
it, or partly in it. -/
inductive Containment where
  | outside
  | inside
  | partly
  deriving DecidableEq, Repr

/-- An axis-aligned box given by its lower and upper corner. -/
structure Box where
  min : Vec3
  max : Vec3
  deriving BEq, DecidableEq

namespace Box

def ofPoint (p : Vec3) : Box := ⟨p, p⟩

/-- The box reaching `half` to either side of `center` on each axis. -/
def around (center half : Vec3) : Box := ⟨center - half, center + half⟩

instance : Inhabited Box := ⟨ofPoint .zero⟩

def center (b : Box) : Vec3 := (b.min + b.max).scale 0.5

def size (b : Box) : Vec3 := b.max - b.min

def isFinite (b : Box) : Bool := b.min.isFinite && b.max.isFinite

/-- Whether `b` contains the whole of `o`. -/
def contains (b o : Box) : Bool :=
  b.min.x ≤ o.min.x && o.max.x ≤ b.max.x
    && b.min.y ≤ o.min.y && o.max.y ≤ b.max.y
    && b.min.z ≤ o.min.z && o.max.z ≤ b.max.z

/-- Whether `p` lies in `b` or on its boundary. -/
def containsPoint (b : Box) (p : Vec3) : Bool :=
  b.min.x ≤ p.x && p.x ≤ b.max.x
    && b.min.y ≤ p.y && p.y ≤ b.max.y
    && b.min.z ≤ p.z && p.z ≤ b.max.z

/-- Whether the two boxes overlap or touch. -/
def intersects (b o : Box) : Bool :=
  b.min.x ≤ o.max.x && o.min.x ≤ b.max.x
    && b.min.y ≤ o.max.y && o.min.y ≤ b.max.y
    && b.min.z ≤ o.max.z && o.min.z ≤ b.max.z

/-- The square of the distance from `p` to the box, zero inside it. -/
def distanceSquared (b : Box) (p : Vec3) : Float32 :=
  (p.clamp b.min b.max).distanceSquared p

/-- Whether the box and a closed ball share a point. A negative or NaN radius
meets nothing. -/
def intersectsSphere (b : Box) (center : Vec3) (radius : Float32) : Bool :=
  0 ≤ radius && b.distanceSquared center ≤ radius * radius

/-- Of the two ends of an interval the one farther from `c`; the upper end when
they are equally far. -/
def fartherEnd (c lo hi : Float32) : Float32 :=
  if hi - c < c - lo then lo else hi

/-- The corner farthest from a point. -/
def farthestCorner (b : Box) (c : Vec3) : Vec3 :=
  ⟨fartherEnd c.x b.min.x b.max.x, fartherEnd c.y b.min.y b.max.y,
    fartherEnd c.z b.min.z b.max.z⟩

/-- Whether the whole box lies in a closed ball: its farthest corner does. -/
def withinSphere (b : Box) (center : Vec3) (radius : Float32) : Bool :=
  0 ≤ radius && (b.farthestCorner center).distanceSquared center ≤ radius * radius

def classifySphere (b : Box) (center : Vec3) (radius : Float32) : Containment :=
  if !b.intersectsSphere center radius then .outside
  else if b.withinSphere center radius then .inside
  else .partly

def classifyBox (b query : Box) : Containment :=
  if !b.intersects query then .outside
  else if query.contains b then .inside
  else .partly

def union (b o : Box) : Box := ⟨b.min.lesser o.min, b.max.greater o.max⟩

end Box

end Broadphase
