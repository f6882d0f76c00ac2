import Broadphase.Frustum

/-!
The regions that queries ask about, and the exact test of a box against each of
them.
-/

namespace Broadphase

/-- The region a query asks about. -/
inductive Region where
  | point (p : Vec3)
  | sphere (center : Vec3) (radius : Float32)
  | box (b : Box)
  | frustum (f : Frustum)
  deriving DecidableEq

/-- Whether a box overlaps the region. -/
def Region.meets (region : Region) (b : Box) : Bool :=
  match region with
  | .point p => b.containsPoint p
  | .sphere center radius => b.intersectsSphere center radius
  | .box query => b.intersects query
  | .frustum f => f.intersectsBox b

end Broadphase
