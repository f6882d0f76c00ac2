import Mathlib
import Broadphase.Proofs.Frustum

/-!
The tests of a box and the test of a point. A box with a visible point is never reported to be
outside, whatever the planes and the corners are: along each normal the point lies before the
innermost corner, and its distance is a number because it was found not to be negative. A finite
box that is reported to be inside has visible points only, unless the distance of an outermost
corner is no number: such a corner is not found to be outside either, while a point with such a
distance is not visible.
-/

namespace Broadphase

namespace Plane

open Scalar

variable {p : Plane} {b : Box} {x : Vec3}

/-- A plane with a point of the box on its inner side does not exclude the box. -/
theorem not_excludes_of_containsPoint (hx : b.containsPoint x = true)
    (hinside : 0 ≤ p.distance x) : p.excludes b = false := by
  rw [← Bool.not_eq_true, excludes, decide_eq_true_eq]
  intro hexcludes
  obtain ⟨hcorner, -, hneg⟩ := lt_iff.mp hexcludes
  obtain ⟨-, hpoint, hnonneg⟩ := le_iff.mp hinside
  have hle := notAbove_distance (toward_nearCorner hx) hpoint hcorner
  exact absurd (hle.trans_lt hneg) (not_lt.mpr hnonneg)

/-- A plane with the outermost corner of a finite box on its inner side has each point of the
box there. -/
theorem distance_nonneg_of_containsPoint (hb : b.IsReal) (hx : b.containsPoint x = true)
    (hcorner : 0 ≤ p.distance (p.farCorner b)) : 0 ≤ p.distance x := by
  obtain ⟨hzero, hnumber, hnonneg⟩ := le_iff.mp hcorner
  have hbelow := below_distance (isReal_farCorner p hb) (hb.of_containsPoint hx)
    (farCorner_toward hx)
  have hleast : value (p.distance (p.farCorner b)) ≠ ⊥ := by
    rw [isReal_zero.value_eq] at hnonneg
    exact ne_bot_of_le_ne_bot (EReal.coe_ne_bot 0) hnonneg
  have hpoint := hbelow.right hnumber hleast
  exact le_iff.mpr ⟨hzero, hpoint, hnonneg.trans (hbelow.notAbove hnumber hpoint)⟩

end Plane

namespace Frustum

variable {f : Frustum} {b : Box}

theorem containsPoint_iff {x : Vec3} :
    f.containsPoint x = true ↔ ∀ plane ∈ f.planes, 0 ≤ plane.distance x := by
  simp only [containsPoint, List.all_eq_true, decide_eq_true_eq]

theorem intersectsBox_iff :
    f.intersectsBox b = true ↔ ∀ plane ∈ f.planes, plane.excludes b = false := by
  simp only [intersectsBox, List.all_eq_true, Bool.not_eq_true']

theorem not_cuts_of_inside (h : f.classifyBox b = .inside) :
    ∀ plane ∈ f.planes, plane.cuts b = false := by
  unfold classifyBox at h
  split_ifs at h with hexcluded hcut
  intro plane hplane
  rw [← Bool.not_eq_true]
  intro hcuts
  exact hcut (List.any_eq_true.mpr ⟨plane, hplane, hcuts⟩)

/-- The two tests of a box agree with each other and with the test of its points. A box is met
exactly if it is not reported to be outside, and it is met if one of its points is visible. All
points of a finite box are visible if it is reported to be inside and no plane finds the distance
of its outermost corner to be no number. -/
theorem box_tests_coherent (f : Frustum) (b : Box) :
    (f.intersectsBox b = true ↔ f.classifyBox b ≠ .outside) ∧
    (∀ x, b.containsPoint x = true → f.containsPoint x = true → f.classifyBox b ≠ .outside) ∧
    (b.isFinite = true → f.classifyBox b = .inside →
      (∀ plane ∈ f.planes, (plane.distance (plane.farCorner b)).isNaN = false) →
      ∀ x, b.containsPoint x = true → f.containsPoint x = true) := by
  have hagree : f.intersectsBox b = true ↔ f.classifyBox b ≠ .outside := by
    rw [Ne, classifyBox_eq_outside_iff, Bool.not_eq_false]
  refine ⟨hagree, ?_, ?_⟩
  · intro x hx hvisible
    rw [← hagree, intersectsBox_iff]
    intro plane hplane
    exact Plane.not_excludes_of_containsPoint hx (containsPoint_iff.mp hvisible plane hplane)
  · intro hfinite hinside hnumbers x hx
    rw [containsPoint_iff]
    intro plane hplane
    have hcuts := not_cuts_of_inside hinside plane hplane
    rw [Plane.cuts, decide_eq_false_iff_not] at hcuts
    have hcorner : 0 ≤ plane.distance (plane.farCorner b) := by
      by_contra hneg
      exact hcuts ((Scalar.not_le Scalar.isReal_zero.isNumber (hnumbers plane hplane)).mp hneg)
    exact Plane.distance_nonneg_of_containsPoint (Box.isReal_of_isFinite hfinite) hx hcorner

/-- A cube of visible points has all points of a smaller cube, and meets a box without an end, for
which no plane finds the distance of the innermost corner to be a number. -/
theorem box_tests_coherent_cube :
    let f : Frustum := ⟨⟨⟨1, 0, 0⟩, 10⟩, ⟨⟨-1, 0, 0⟩, 10⟩, ⟨⟨0, 1, 0⟩, 10⟩, ⟨⟨0, -1, 0⟩, 10⟩,
      ⟨⟨0, 0, 1⟩, 10⟩, ⟨⟨0, 0, -1⟩, 10⟩⟩
    let small : Box := ⟨.splat (-1), .splat 1⟩
    let endless : Box := ⟨.zero, .splat (1 / 0)⟩
    f.classifyBox small = .inside ∧
      (∀ x, small.containsPoint x = true → f.containsPoint x = true) ∧
      f.classifyBox endless ≠ .outside ∧ f.intersectsBox endless = true := by
  intro f small endless
  have hinside : f.classifyBox small = .inside := by decide +kernel
  have hnumbers : ∀ plane ∈ f.planes, (plane.distance (plane.farCorner small)).isNaN = false := by
    decide +kernel
  obtain ⟨-, -, hvisible⟩ := box_tests_coherent f small
  obtain ⟨hagree, hmeets, -⟩ := box_tests_coherent f endless
  have hendless := hmeets .zero (by decide +kernel) (by decide +kernel)
  exact ⟨hinside, hvisible (by decide +kernel) hinside hnumbers, hendless, hagree.mpr hendless⟩

/-- Where a distance is no number, a finite box can be inside without all of its points being
visible. -/
example :
    let plane : Plane := ⟨⟨1 / 0, 0, 0⟩, 0⟩
    let f : Frustum := ⟨plane, plane, plane, plane, plane, plane⟩
    let b : Box := ⟨.zero, .splat 1⟩
    f.classifyBox b = .inside ∧ b.containsPoint .zero = true ∧ f.containsPoint .zero = false := by
  decide +kernel

end Frustum

end Broadphase
