import Mathlib
import Broadphase.Proofs.Box
import Broadphase.Proofs.Scalar.Monotone

/-!
Rounded distances between points and boxes. When a box grows, the rounded distance
of its nearest point cannot grow, and the rounded distance of its farthest corner
cannot shrink: differences, squares and sums of nonnegative numbers keep the order,
and where they overflow they become the greatest value. So a ball that misses a box
misses all boxes inside of it, and one that holds a box meets all of them.
-/

namespace Broadphase

namespace Scalar

/-- The absolute value of an extended real. -/
noncomputable def absolute (x : EReal) : EReal := max x (-x)

theorem absolute_neg (x : EReal) : absolute (-x) = absolute x := by
  unfold absolute
  rw [neg_neg, max_comm]

theorem absolute_of_nonneg {x : EReal} (h : 0 ≤ x) : absolute x = x :=
  max_eq_left ((EReal.neg_le_zero.mpr h).trans h)

theorem absolute_nonneg (x : EReal) : 0 ≤ absolute x := by
  rcases le_total 0 x with h | h
  · exact h.trans (le_max_left x (-x))
  · exact (EReal.neg_nonneg.mpr h).trans (le_max_right x (-x))

theorem mul_self_eq (x : EReal) : x * x = absolute x * absolute x := by
  rcases max_choice x (-x) with h | h
  · rw [absolute, h]
  · rw [absolute, h, neg_mul_neg]

theorem mul_self_mono {x y : EReal} (h : absolute x ≤ absolute y) : x * x ≤ y * y := by
  rw [mul_self_eq x, mul_self_eq y]
  exact mul_le_mul h h (absolute_nonneg x) (absolute_nonneg y)

theorem absolute_rounded (r : ℝ) : absolute (rounded r) = rounded |r| := by
  rcases abs_choice r with h | h
  · rw [absolute_of_nonneg (rounded_nonneg (abs_eq_self.mp h)), h]
  · rw [← absolute_neg, ← rounded_neg, ← h, absolute_of_nonneg (rounded_nonneg (abs_nonneg r))]

/-- A square is never a NaN, because zero is not multiplied with an infinity. -/
theorem value_square {x : Float32} (hx : IsNumber x) :
    IsNumber (x * x) ∧ value (x * x) = nearest (value x * value x) :=
  value_mul hx hx (fun h => by simp [h]) (fun h => by simp [h])

theorem value_square_nonneg {x : Float32} (hx : IsNumber x) : 0 ≤ value (x * x) := by
  rw [(value_square hx).2, mul_self_eq]
  exact nearest_nonneg (mul_nonneg (absolute_nonneg _) (absolute_nonneg _))

theorem value_add_nonneg {a b : Float32} (ha : IsNumber a) (hb : IsNumber b) (hpa : 0 ≤ value a)
    (hpb : 0 ≤ value b) :
    IsNumber (a + b) ∧ value (a + b) = nearest (value a + value b) ∧ 0 ≤ value (a + b) := by
  have hfree {x : EReal} (h : 0 ≤ x) : x ≠ ⊥ := (lt_of_lt_of_le EReal.bot_lt_zero h).ne'
  obtain ⟨hnumber, hvalue⟩ := value_add ha hb (Or.inl (hfree hpa)) (Or.inr (hfree hpb))
  exact ⟨hnumber, hvalue, hvalue ▸ nearest_nonneg (add_nonneg hpa hpb)⟩

end Scalar

namespace Vec3

open Scalar

theorem isNumber_dot_self {u : Vec3} (hu : u.IsNumber) : Scalar.IsNumber (u.dot u) := by
  have hsquare {x : Float32} (hx : Scalar.IsNumber x) :=
    And.intro (value_square hx).1 (value_square_nonneg hx)
  obtain ⟨hx, hpx⟩ := hsquare (hu .x)
  obtain ⟨hy, hpy⟩ := hsquare (hu .y)
  obtain ⟨hz, hpz⟩ := hsquare (hu .z)
  obtain ⟨hxy, -, hpxy⟩ := value_add_nonneg hx hy hpx hpy
  exact (value_add_nonneg hxy hz hpxy hpz).1

/-- No square exceeds the rounded sum of squares. -/
theorem square_along_le {u : Vec3} (hu : u.IsNumber) (axis : Axis) :
    value (u.along axis * u.along axis) ≤ value (u.dot u) := by
  have hsquare (axis : Axis) : Scalar.IsNumber (u.along axis * u.along axis) ∧
      0 ≤ value (u.along axis * u.along axis) :=
    ⟨(value_square (hu axis)).1, value_square_nonneg (hu axis)⟩
  obtain ⟨hx, hpx⟩ := hsquare .x
  obtain ⟨hy, hpy⟩ := hsquare .y
  obtain ⟨hz, hpz⟩ := hsquare .z
  obtain ⟨hxy, hvxy, hpxy⟩ := value_add_nonneg hx hy hpx hpy
  obtain ⟨-, hvalue, -⟩ := value_add_nonneg hxy hz hpxy hpz
  have hplane : value (u.along .x * u.along .x + u.along .y * u.along .y) ≤ value (u.dot u) := by
    rw [← nearest_value hxy]
    exact (nearest_mono (le_add_of_nonneg_right hpz)).trans_eq hvalue.symm
  cases axis with
  | x =>
      refine le_trans ?_ hplane
      rw [← nearest_value hx, hvxy]
      exact nearest_mono (le_add_of_nonneg_right hpy)
  | y =>
      refine le_trans ?_ hplane
      rw [← nearest_value hy, hvxy]
      exact nearest_mono (le_add_of_nonneg_left hpx)
  | z =>
      rw [← nearest_value hz]
      exact (nearest_mono (le_add_of_nonneg_left hpxy)).trans_eq hvalue.symm

theorem dot_self_mono {u v : Vec3} (hu : u.IsNumber) (hv : v.IsNumber)
    (h : ∀ axis, absolute (value (u.along axis)) ≤ absolute (value (v.along axis))) :
    u.dot u ≤ v.dot v := by
  have hsquare (axis : Axis) :
      NotAbove (u.along axis * u.along axis) (v.along axis * v.along axis) := by
    intro _ _
    rw [(value_square (hu axis)).2, (value_square (hv axis)).2]
    exact nearest_mono (mul_self_mono (h axis))
  have hleft := isNumber_dot_self hu
  have hright := isNumber_dot_self hv
  exact le_iff.mpr
    ⟨hleft, hright, ((hsquare .x).add (hsquare .y)).add (hsquare .z) hleft hright⟩

theorem sub_along (u v : Vec3) (axis : Axis) :
    (u - v).along axis = u.along axis - v.along axis := by
  cases axis <;> rfl

theorem isNumber_sub {p c : Vec3} (hp : p.IsReal) (hc : c.IsReal) : (p - c).IsNumber := by
  intro axis
  obtain ⟨r, hr⟩ := hp axis
  obtain ⟨s, hs⟩ := hc axis
  rw [sub_along]
  exact (hr.sub hs).1

/-- Distances from a point compare as the rounded differences on the axes. -/
theorem distanceSquared_mono {p q c : Vec3} (hp : p.IsReal) (hq : q.IsReal) (hc : c.IsReal)
    (h : ∀ axis, absolute (value (p.along axis - c.along axis)) ≤
      absolute (value (q.along axis - c.along axis))) :
    p.distanceSquared c ≤ q.distanceSquared c := by
  refine dot_self_mono (isNumber_sub hp hc) (isNumber_sub hq hc) ?_
  intro axis
  rw [sub_along, sub_along]
  exact h axis

end Vec3

namespace Scalar

/-- The point of an interval nearest to a number. -/
def nearestIn (c lo hi : Float32) : Float32 := Scalar.lesser (Scalar.greater c lo) hi

theorem IsReal.nearestIn {c lo hi : Float32} {r a b : ℝ} (hc : IsReal c r) (hlo : IsReal lo a)
    (hhi : IsReal hi b) : IsReal (nearestIn c lo hi) (min (max r a) b) :=
  (hc.greater hlo).lesser hhi

section Interval

variable {c lo hi low high : Float32} {r a b l h : ℝ}

/-- In a larger interval the nearest point is not farther. -/
theorem absolute_nearestIn_mono (hc : IsReal c r) (hlo : IsReal lo a) (hhi : IsReal hi b)
    (hlow : IsReal low l) (hhigh : IsReal high h) (hal : a ≤ l) (hlh : l ≤ h) (hhb : h ≤ b) :
    absolute (value (nearestIn c lo hi - c)) ≤ absolute (value (nearestIn c low high - c)) := by
  rw [((hc.nearestIn hlo hhi).sub hc).2, ((hc.nearestIn hlow hhigh).sub hc).2, absolute_rounded,
    absolute_rounded]
  apply rounded_mono
  rcases le_total r a with hra | hra
  · have houter : min (max r a) b = a := by
      rw [max_eq_right hra, min_eq_left (by linarith)]
    have hinner : min (max r l) h = l := by
      rw [max_eq_right (by linarith), min_eq_left hlh]
    rw [houter, hinner, abs_of_nonneg (by linarith), abs_of_nonneg (by linarith)]
    linarith
  · rcases le_total r b with hrb | hrb
    · have houter : min (max r a) b = r := by
        rw [max_eq_left hra, min_eq_left hrb]
      rw [houter, sub_self, abs_zero]
      exact abs_nonneg _
    · have houter : min (max r a) b = b := by
        rw [max_eq_left hra, min_eq_right hrb]
      have hinner : min (max r l) h = h := by
        rw [max_eq_left (by linarith), min_eq_right (by linarith)]
      rw [houter, hinner, abs_of_nonpos (by linarith), abs_of_nonpos (by linarith)]
      linarith

end Interval

end Scalar

namespace Box

open Scalar

theorem clamp_along (c lo hi : Vec3) (axis : Vec3.Axis) :
    (c.clamp lo hi).along axis = nearestIn (c.along axis) (lo.along axis) (hi.along axis) := by
  cases axis <;> rfl

theorem farthestCorner_along (b : Box) (c : Vec3) (axis : Vec3.Axis) :
    (b.farthestCorner c).along axis =
      fartherEnd (c.along axis) (b.min.along axis) (b.max.along axis) := by
  cases axis <;> rfl

theorem IsReal.clamp {b : Box} {c : Vec3} (hb : b.IsReal) (hc : c.IsReal) :
    (c.clamp b.min b.max).IsReal := by
  intro axis
  obtain ⟨r, hr⟩ := hc axis
  obtain ⟨lo, hlo⟩ := hb.min axis
  obtain ⟨hi, hhi⟩ := hb.max axis
  rw [clamp_along]
  exact ⟨_, hr.nearestIn hlo hhi⟩

theorem IsReal.farthestCorner {b : Box} (hb : b.IsReal) (c : Vec3) :
    (b.farthestCorner c).IsReal := by
  intro axis
  rw [farthestCorner_along]
  unfold fartherEnd
  split_ifs
  · exact hb.min axis
  · exact hb.max axis

section Nearest

variable {b : Box} {c : Vec3}

/-- The point of a box nearest to a point lies in the box. -/
theorem containsPoint_clamp (hb : b.IsReal) (ho : b.Ordered) (hc : c.IsReal) :
    b.containsPoint (c.clamp b.min b.max) = true := by
  rw [containsPoint_iff]
  intro axis
  obtain ⟨r, hr⟩ := hc axis
  obtain ⟨lo, hlo⟩ := hb.min axis
  obtain ⟨hi, hhi⟩ := hb.max axis
  have hends := (hlo.le_iff hhi).mp (ho axis)
  have hnearest := hr.nearestIn hlo hhi
  rw [clamp_along, hlo.le_iff hnearest, hnearest.le_iff hhi]
  exact ⟨le_min (le_max_right r lo) hends, min_le_right _ hi⟩

/-- A point is the only point of its box. -/
theorem clamp_self {p : Vec3} (hc : c.IsReal) (hp : p.IsReal) : c.clamp p p = p := by
  have halong (axis : Vec3.Axis) : (c.clamp p p).along axis = p.along axis := by
    obtain ⟨r, hr⟩ := hc axis
    obtain ⟨s, hs⟩ := hp axis
    have hraised : p.along axis ≤ Scalar.greater (c.along axis) (p.along axis) :=
      (hs.le_iff (hr.greater hs)).mpr (le_max_right r s)
    rw [clamp_along, nearestIn, Scalar.lesser, decide_eq_true hraised, Bool.or_true, if_pos rfl]
  calc
    c.clamp p p = ⟨(c.clamp p p).along .x, (c.clamp p p).along .y, (c.clamp p p).along .z⟩ := rfl
    _ = ⟨p.along .x, p.along .y, p.along .z⟩ := by rw [halong, halong, halong]
    _ = p := rfl

/-- A ball that meets a box meets it at the point nearest to the center. -/
theorem intersectsSphere_clamp {radius : Float32} (hb : b.IsReal) (hc : c.IsReal)
    (hmeets : b.intersectsSphere c radius = true) :
    (ofPoint (c.clamp b.min b.max)).intersectsSphere c radius = true := by
  have hself : c.clamp (c.clamp b.min b.max) (c.clamp b.min b.max) = c.clamp b.min b.max :=
    clamp_self hc (hb.clamp hc)
  unfold intersectsSphere distanceSquared at hmeets ⊢
  unfold ofPoint
  rwa [hself]

end Nearest

section Contained

variable {b o : Box} {c : Vec3}

theorem distanceSquared_mono (hb : b.IsReal) (ho : o.Ordered) (hc : c.IsReal)
    (hcontains : b.contains o = true) : b.distanceSquared c ≤ o.distanceSquared c := by
  have hreal := hb.of_contains ho hcontains
  refine Vec3.distanceSquared_mono (hb.clamp hc) (hreal.clamp hc) hc ?_
  intro axis
  obtain ⟨r, hr⟩ := hc axis
  obtain ⟨lo, hlo⟩ := hb.min axis
  obtain ⟨hi, hhi⟩ := hb.max axis
  obtain ⟨l, hl⟩ := hreal.min axis
  obtain ⟨h, hh⟩ := hreal.max axis
  obtain ⟨hmin, hmax⟩ := contains_iff.mp hcontains axis
  rw [clamp_along, clamp_along]
  exact absolute_nearestIn_mono hr hlo hhi hl hh ((hlo.le_iff hl).mp hmin)
    ((hl.le_iff hh).mp (ho axis)) ((hh.le_iff hhi).mp hmax)

/-- A ball that meets a box meets every box around it. -/
theorem intersectsSphere_of_contains (hb : b.IsReal) (ho : o.Ordered) (hc : c.IsReal)
    (hcontains : b.contains o = true) {radius : Float32}
    (hmeets : o.intersectsSphere c radius = true) : b.intersectsSphere c radius = true := by
  simp only [intersectsSphere, Bool.and_eq_true, decide_eq_true_eq] at hmeets ⊢
  exact ⟨hmeets.1, Scalar.le_trans (distanceSquared_mono hb ho hc hcontains) hmeets.2⟩

end Contained

end Box

end Broadphase
