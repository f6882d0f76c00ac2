import Mathlib
import Broadphase.Proofs.Box

/-!
Boxes as sets of points. The tests of boxes compare corners only, and for boxes whose lower corner
is not above the upper one they say what they are named for of all points with numbers for
coordinates. A box contains another one if it has the corners of it. Two boxes that overlap on
each axis have a point in common, which is put together from their lower corners one axis at a
time. Corners may be infinite, and so may points.
-/

namespace Broadphase

namespace Vec3

section

variable {u v : Vec3} (hu : u.IsNumber) (hv : v.IsNumber) (axis : Axis)

theorem greater_along (u v : Vec3) (axis : Axis) :
    (u.greater v).along axis = Scalar.greater (u.along axis) (v.along axis) := by
  cases axis <;> rfl

theorem lesser_along (u v : Vec3) (axis : Axis) :
    (u.lesser v).along axis = Scalar.lesser (u.along axis) (v.along axis) := by
  cases axis <;> rfl

include hu hv

theorem le_greater_along : u.along axis ≤ (u.greater v).along axis ∧
    v.along axis ≤ (u.greater v).along axis := by
  rw [greater_along]
  exact Scalar.le_greater (hu axis) (hv axis)

theorem lesser_along_le : (u.lesser v).along axis ≤ u.along axis ∧
    (u.lesser v).along axis ≤ v.along axis := by
  rw [lesser_along]
  exact Scalar.lesser_le (hu axis) (hv axis)

theorem greater_along_le_iff {x : Float32} :
    (u.greater v).along axis ≤ x ↔ u.along axis ≤ x ∧ v.along axis ≤ x := by
  rw [greater_along]
  exact Scalar.greater_le_iff (hu axis) (hv axis)

theorem le_lesser_along_iff {x : Float32} :
    x ≤ (u.lesser v).along axis ↔ x ≤ u.along axis ∧ x ≤ v.along axis := by
  rw [lesser_along]
  exact Scalar.le_lesser_iff (hu axis) (hv axis)

end

end Vec3

namespace Box

variable {a b c : Box} {p : Vec3}

/-- The points with numbers for coordinates, infinite ones among them, that a box contains. -/
def points (b : Box) : Set Vec3 := {p | p.IsNumber ∧ b.containsPoint p = true}

/-- What is compared with a corner is a number. -/
theorem mem_points : p ∈ b.points ↔ b.containsPoint p = true := by
  refine ⟨And.right, fun h => ⟨?_, h⟩⟩
  intro axis
  exact (Scalar.le_iff.mp (containsPoint_iff.mp h axis).1).2.1

section Corners

variable (hb : b.Ordered)

include hb

theorem Ordered.min_isNumber : b.min.IsNumber := fun axis => (Scalar.le_iff.mp (hb axis)).1

theorem Ordered.max_isNumber : b.max.IsNumber := fun axis => (Scalar.le_iff.mp (hb axis)).2.1

theorem Ordered.contains_self : b.contains b = true := by
  rw [contains_iff]
  intro axis
  exact ⟨Scalar.le_refl (hb.min_isNumber axis), Scalar.le_refl (hb.max_isNumber axis)⟩

theorem Ordered.min_mem_points : b.min ∈ b.points :=
  mem_points.mpr (containsPoint_min hb hb.contains_self)

theorem Ordered.max_mem_points : b.max ∈ b.points :=
  mem_points.mpr (containsPoint_max hb hb.contains_self)

/-- A box contains another one exactly if it has all points of it. The ones to look at are the two
corners. -/
theorem contains_iff_points : a.contains b = true ↔ b.points ⊆ a.points := by
  constructor
  · intro h p hp
    exact mem_points.mpr (containsPoint_of_contains h (mem_points.mp hp))
  · intro h
    have hmin := mem_points.mp (h hb.min_mem_points)
    have hmax := mem_points.mp (h hb.max_mem_points)
    rw [contains_iff]
    intro axis
    exact ⟨(containsPoint_iff.mp hmin axis).1, (containsPoint_iff.mp hmax axis).2⟩

end Corners

section Pairs

variable (ha : a.Ordered) (hb : b.Ordered)

include ha hb

/-- The greater ones of the lower ends of two overlapping boxes make a point of the first one. -/
theorem containsPoint_greater_min (h : a.intersects b = true) :
    a.containsPoint (a.min.greater b.min) = true ∧ b.containsPoint (a.min.greater b.min) = true := by
  simp only [containsPoint_iff, ← forall_and]
  intro axis
  obtain ⟨hleft, hright⟩ := intersects_iff.mp h axis
  obtain ⟨hlow, hlow'⟩ := Vec3.le_greater_along ha.min_isNumber hb.min_isNumber axis
  simp only [Vec3.greater_along_le_iff ha.min_isNumber hb.min_isNumber axis]
  exact ⟨⟨hlow, ha axis, hright⟩, hlow', hleft, hb axis⟩

/-- Two boxes overlap exactly if they have a point in common. -/
theorem intersects_iff_points : a.intersects b = true ↔ (a.points ∩ b.points).Nonempty := by
  constructor
  · intro h
    obtain ⟨hfirst, hsecond⟩ := containsPoint_greater_min ha hb h
    exact ⟨a.min.greater b.min, mem_points.mpr hfirst, mem_points.mpr hsecond⟩
  · rintro ⟨p, hfirst, hsecond⟩
    rw [intersects_iff]
    intro axis
    obtain ⟨hmin, hmax⟩ := containsPoint_iff.mp (mem_points.mp hfirst) axis
    obtain ⟨hmin', hmax'⟩ := containsPoint_iff.mp (mem_points.mp hsecond) axis
    exact ⟨Scalar.le_trans hmin hmax', Scalar.le_trans hmin' hmax⟩

theorem union_contains : (a.union b).contains a = true ∧ (a.union b).contains b = true := by
  simp only [contains_iff, ← forall_and]
  intro axis
  obtain ⟨hmin, hmin'⟩ := Vec3.lesser_along_le ha.min_isNumber hb.min_isNumber axis
  obtain ⟨hmax, hmax'⟩ := Vec3.le_greater_along ha.max_isNumber hb.max_isNumber axis
  exact ⟨⟨hmin, hmax⟩, hmin', hmax'⟩

theorem contains_union (hca : c.contains a = true) (hcb : c.contains b = true) :
    c.contains (a.union b) = true := by
  rw [contains_iff] at hca hcb ⊢
  intro axis
  exact ⟨(Vec3.le_lesser_along_iff ha.min_isNumber hb.min_isNumber axis).mpr
      ⟨(hca axis).1, (hcb axis).1⟩,
    (Vec3.greater_along_le_iff ha.max_isNumber hb.max_isNumber axis).mpr
      ⟨(hca axis).2, (hcb axis).2⟩⟩

end Pairs

theorem classifyBox_eq_outside_iff :
    a.classifyBox b = .outside ↔ a.intersects b = false := by
  unfold classifyBox
  cases a.intersects b <;> cases b.contains a <;> simp

theorem classifyBox_eq_inside_iff :
    a.classifyBox b = .inside ↔ a.intersects b = true ∧ b.contains a = true := by
  unfold classifyBox
  cases a.intersects b <;> cases b.contains a <;> simp

theorem classifyBox_eq_partly_iff :
    a.classifyBox b = .partly ↔ a.intersects b = true ∧ ¬ b.contains a = true := by
  unfold classifyBox
  cases a.intersects b <;> cases b.contains a <;> simp

/-- What the tests of two boxes say of the points in them. -/
structure TellsPoints (a b : Box) : Prop where
  contains_iff : a.contains b = true ↔ b.points ⊆ a.points
  intersects_iff : a.intersects b = true ↔ (a.points ∩ b.points).Nonempty
  /-- The box around both contains them, and nothing that does is smaller. -/
  union_contains : (a.union b).contains a = true ∧ (a.union b).contains b = true
  contains_union : ∀ c : Box, c.contains a = true → c.contains b = true →
    c.contains (a.union b) = true
  outside_iff : a.classifyBox b = .outside ↔ a.points ∩ b.points = ∅
  inside_iff : a.classifyBox b = .inside ↔ a.points ⊆ b.points
  partly_iff : a.classifyBox b = .partly ↔
    (a.points ∩ b.points).Nonempty ∧ ¬ a.points ⊆ b.points

/-- Of two boxes whose lower corners are not above their upper ones, infinite ones included, one
contains the other if it has all of its points, they overlap if they share a point, the box around
them is the least one that contains both, and the three-way test tells whether the first one
shares no point with the second, has all its points in it, or neither. -/
theorem tests_tell_points {a b : Box} (ha : a.Ordered) (hb : b.Ordered) : TellsPoints a b where
  contains_iff := contains_iff_points hb
  intersects_iff := intersects_iff_points ha hb
  union_contains := union_contains ha hb
  contains_union _ hca hcb := contains_union ha hb hca hcb
  outside_iff := by
    rw [classifyBox_eq_outside_iff, ← Bool.not_eq_true, intersects_iff_points ha hb,
      Set.not_nonempty_iff_eq_empty]
  inside_iff := by
    rw [classifyBox_eq_inside_iff, ← contains_iff_points ha]
    exact and_iff_right_of_imp (intersects_of_inside ha)
  partly_iff := by
    rw [classifyBox_eq_partly_iff, intersects_iff_points ha hb, contains_iff_points ha]

/-- Two boxes without an end, one downwards and one upwards, share the points between their other
corners, and neither has all points of the other one. A box around both is without an end in both
directions. -/
theorem tests_tell_points_endless :
    let low : Box := ⟨.splat (-1 / 0), .splat 1⟩
    let high : Box := ⟨.splat (-1), .splat (1 / 0)⟩
    low.Ordered ∧ high.Ordered ∧ (low.points ∩ high.points).Nonempty ∧
      ¬ low.points ⊆ high.points ∧ ¬ high.points ⊆ low.points ∧
      ∀ c : Box, c.contains low = true → c.contains high = true →
        c.contains ⟨.splat (-1 / 0), .splat (1 / 0)⟩ = true := by
  intro low high
  have hlow : low.Ordered := ordered_iff.mpr (by decide +kernel)
  have hhigh : high.Ordered := ordered_iff.mpr (by decide +kernel)
  have h := tests_tell_points hlow hhigh
  obtain ⟨hshare, hout⟩ := h.partly_iff.mp (by decide +kernel)
  refine ⟨hlow, hhigh, hshare, hout, ?_, ?_⟩
  · rw [← h.contains_iff]
    decide +kernel
  · have hunion : low.union high = ⟨.splat (-1 / 0), .splat (1 / 0)⟩ := by decide +kernel
    exact hunion ▸ h.contains_union

end Box

end Broadphase
