import Broadphase.Frustum

/-!
A camera is a passive record: the view and projection matrices handed in by the
caller and the viewing volume that queries cull against. Replacing one part
leaves the others as they are.
-/

namespace Broadphase

/-- View and projection of an observer, with the volume to cull against. -/
structure Camera where
  view : Mat4
  projection : Mat4
  frustum : Frustum
  deriving DecidableEq

namespace Camera

/-- The product that takes world coordinates to clip coordinates. -/
def viewProjection (c : Camera) : Mat4 := c.projection * c.view

def ofMatrices (view projection : Mat4) : Camera :=
  ⟨view, projection, .ofViewProjection (projection * view)⟩

end Camera

end Broadphase
