import Mathlib
import Broadphase.Frustum
import Broadphase.Proofs.Box
import Broadphase.Proofs.Scalar.Monotone

/-!
Planes that exclude a box exclude every box inside of it. The distance of a point is a rounded
sum of rounded products, and each of its steps keeps the order along the normal, so the
innermost corner bounds the distance from above: either the bound is no number or the greatest
value, which excludes nothing, or what it bounds is a number and not above it. No assumption is
made about the plane, whose coefficients may be zero, infinite or NaN.
-/

namespace Broadphase

namespace Plane

open Scalar

variable {p : Plane} {b o : Box}

theorem nearCorner_along (p : Plane) (b : Box) (axis : Vec3.Axis) :
    (p.nearCorner b).along axis =
      if 0 ≤ p.normal.along axis then b.max.along axis else b.min.along axis := by
  cases axis <;> rfl

theorem farCorner_along (p : Plane) (b : Box) (axis : Vec3.Axis) :
    (p.farCorner b).along axis =
      if 0 ≤ p.normal.along axis then b.min.along axis else b.max.along axis := by
  cases axis <;> rfl

/-- The second point is nowhere behind the first along the normal. -/
def Toward (p : Plane) (x y : Vec3) : Prop :=
  ∀ axis, Along (p.normal.along axis) (x.along axis) (y.along axis)

theorem toward_nearCorner {x : Vec3} (h : b.containsPoint x = true) :
    p.Toward x (p.nearCorner b) := by
  intro axis
  obtain ⟨hmin, hmax⟩ := Box.containsPoint_iff.mp h axis
  rw [nearCorner_along]
  split_ifs with hsign
  · exact Or.inl ⟨hsign, hmax⟩
  · exact Or.inr ⟨hsign, hmin⟩

theorem farCorner_toward {x : Vec3} (h : b.containsPoint x = true) :
    p.Toward (p.farCorner b) x := by
  intro axis
  obtain ⟨hmin, hmax⟩ := Box.containsPoint_iff.mp h axis
  rw [farCorner_along]
  split_ifs with hsign
  · exact Or.inl ⟨hsign, hmin⟩
  · exact Or.inr ⟨hsign, hmax⟩

theorem nearCorner_toward (h : b.contains o = true) :
    p.Toward (p.nearCorner o) (p.nearCorner b) := by
  intro axis
  obtain ⟨hmin, hmax⟩ := Box.contains_iff.mp h axis
  rw [nearCorner_along, nearCorner_along]
  split_ifs with hsign
  · exact Or.inl ⟨hsign, hmax⟩
  · exact Or.inr ⟨hsign, hmin⟩

theorem isReal_nearCorner (p : Plane) (hb : b.IsReal) : (p.nearCorner b).IsReal := by
  intro axis
  rw [nearCorner_along]
  split_ifs
  · exact hb.max axis
  · exact hb.min axis

theorem isReal_farCorner (p : Plane) (hb : b.IsReal) : (p.farCorner b).IsReal := by
  intro axis
  rw [farCorner_along]
  split_ifs
  · exact hb.min axis
  · exact hb.max axis

/-- The distance does not decrease along the normal. -/
theorem notAbove_distance {x y : Vec3} (h : p.Toward x y) :
    NotAbove (p.distance x) (p.distance y) :=
  (((notAbove_mul (h .x)).add (notAbove_mul (h .y))).add (notAbove_mul (h .z))).add
    (notAbove_self p.offset)

theorem below_distance {x y : Vec3} (hx : x.IsReal) (hy : y.IsReal) (h : p.Toward x y) :
    Below (p.distance x) (p.distance y) := by
  have hproduct (axis : Vec3.Axis) :
      Below (p.normal.along axis * x.along axis) (p.normal.along axis * y.along axis) := by
    obtain ⟨r, hr⟩ := hx axis
    obtain ⟨q, hq⟩ := hy axis
    exact below_mul hr hq (h axis)
  exact (((hproduct .x).add (hproduct .y)).add (hproduct .z)).add (below_self p.offset)

theorem excludes_of_contains (hb : b.IsReal) (ho : o.IsReal) (hcontains : b.contains o = true)
    (hexcludes : p.excludes b = true) : p.excludes o = true := by
  simp only [excludes, decide_eq_true_eq] at hexcludes ⊢
  obtain ⟨hnumber, hzero, hlt⟩ := lt_iff.mp hexcludes
  have hbelow := below_distance (isReal_nearCorner p ho) (isReal_nearCorner p hb)
    (nearCorner_toward hcontains)
  have hinner := hbelow.left hnumber (hlt.trans_le le_top).ne
  exact lt_iff.mpr ⟨hinner, hzero, (hbelow.notAbove hinner hnumber).trans_lt hlt⟩

end Plane

namespace Frustum

/-- A viewing volume that meets a box meets every box around it. -/
theorem intersectsBox_of_contains {f : Frustum} {b o : Box} (hb : b.IsReal) (ho : o.IsReal)
    (hcontains : b.contains o = true) (hmeets : f.intersectsBox o = true) :
    f.intersectsBox b = true := by
  simp only [intersectsBox, List.all_eq_true, Bool.not_eq_true'] at hmeets ⊢
  intro plane hplane
  rw [← Bool.not_eq_true]
  intro hexcludes
  exact Bool.false_ne_true
    ((hmeets plane hplane).symm.trans (Plane.excludes_of_contains hb ho hcontains hexcludes))

theorem classifyBox_eq_outside_iff {f : Frustum} {b : Box} :
    f.classifyBox b = .outside ↔ f.intersectsBox b = false := by
  unfold classifyBox intersectsBox
  rw [List.all_eq_not_any_not]
  simp only [Bool.not_not]
  split_ifs with hany hcuts <;> simp [hany]

end Frustum

end Broadphase
