import Mathlib
import Broadphase.Box
import Broadphase.Proofs.Scalar.Extended

/-!
Tests of boxes, one axis at a time.
-/

namespace Broadphase

namespace Box

theorem contains_iff {b o : Box} :
    b.contains o = true ↔
      ∀ axis, b.min.along axis ≤ o.min.along axis ∧ o.max.along axis ≤ b.max.along axis := by
  constructor
  · intro h axis
    simp only [contains, Bool.and_eq_true, decide_eq_true_eq] at h
    cases axis <;> simp only [Vec3.along] <;> tauto
  · intro h
    have hx := h .x
    have hy := h .y
    have hz := h .z
    simp only [Vec3.along] at hx hy hz
    simp only [contains, Bool.and_eq_true, decide_eq_true_eq]
    tauto

theorem containsPoint_iff {b : Box} {p : Vec3} :
    b.containsPoint p = true ↔
      ∀ axis, b.min.along axis ≤ p.along axis ∧ p.along axis ≤ b.max.along axis := by
  constructor
  · intro h axis
    simp only [containsPoint, Bool.and_eq_true, decide_eq_true_eq] at h
    cases axis <;> simp only [Vec3.along] <;> tauto
  · intro h
    have hx := h .x
    have hy := h .y
    have hz := h .z
    simp only [Vec3.along] at hx hy hz
    simp only [containsPoint, Bool.and_eq_true, decide_eq_true_eq]
    tauto

theorem intersects_iff {b o : Box} :
    b.intersects o = true ↔
      ∀ axis, b.min.along axis ≤ o.max.along axis ∧ o.min.along axis ≤ b.max.along axis := by
  constructor
  · intro h axis
    simp only [intersects, Bool.and_eq_true, decide_eq_true_eq] at h
    cases axis <;> simp only [Vec3.along] <;> tauto
  · intro h
    have hx := h .x
    have hy := h .y
    have hz := h .z
    simp only [Vec3.along] at hx hy hz
    simp only [intersects, Bool.and_eq_true, decide_eq_true_eq]
    tauto

theorem around_min_along (c half : Vec3) (axis : Vec3.Axis) :
    (around c half).min.along axis = c.along axis - half.along axis := by
  cases axis <;> rfl

theorem around_max_along (c half : Vec3) (axis : Vec3.Axis) :
    (around c half).max.along axis = c.along axis + half.along axis := by
  cases axis <;> rfl

theorem contains_trans {a b c : Box} (hab : a.contains b = true) (hbc : b.contains c = true) :
    a.contains c = true := by
  rw [contains_iff] at hab hbc ⊢
  intro axis
  exact ⟨Scalar.le_trans (hab axis).1 (hbc axis).1, Scalar.le_trans (hbc axis).2 (hab axis).2⟩

theorem containsPoint_of_contains {a b : Box} {p : Vec3} (hab : a.contains b = true)
    (hbp : b.containsPoint p = true) : a.containsPoint p = true := by
  rw [contains_iff] at hab
  rw [containsPoint_iff] at hbp ⊢
  intro axis
  exact ⟨Scalar.le_trans (hab axis).1 (hbp axis).1, Scalar.le_trans (hbp axis).2 (hab axis).2⟩

/-- Whether no axis has the lower corner above the upper one. -/
def Ordered (b : Box) : Prop := ∀ axis, b.min.along axis ≤ b.max.along axis

theorem ordered_iff {b : Box} :
    b.Ordered ↔ b.min.x ≤ b.max.x ∧ b.min.y ≤ b.max.y ∧ b.min.z ≤ b.max.z := by
  constructor
  · intro h
    exact ⟨h .x, h .y, h .z⟩
  · rintro ⟨hx, hy, hz⟩ axis
    cases axis
    · exact hx
    · exact hy
    · exact hz

instance (b : Box) : Decidable b.Ordered := decidable_of_iff _ ordered_iff.symm

theorem containsPoint_min {b o : Box} (ho : o.Ordered) (hcontains : b.contains o = true) :
    b.containsPoint o.min = true := by
  rw [containsPoint_iff]
  intro axis
  obtain ⟨hmin, hmax⟩ := contains_iff.mp hcontains axis
  exact ⟨hmin, Scalar.le_trans (ho axis) hmax⟩

theorem containsPoint_max {b o : Box} (ho : o.Ordered) (hcontains : b.contains o = true) :
    b.containsPoint o.max = true := by
  rw [containsPoint_iff]
  intro axis
  obtain ⟨hmin, hmax⟩ := contains_iff.mp hcontains axis
  exact ⟨Scalar.le_trans hmin (ho axis), hmax⟩

/-- An ordered box overlaps every box that contains it. -/
theorem intersects_of_inside {q b : Box} (hb : b.Ordered) (hqb : q.contains b = true) :
    b.intersects q = true := by
  rw [contains_iff] at hqb
  rw [intersects_iff]
  intro axis
  exact ⟨Scalar.le_trans (hb axis) (hqb axis).2, Scalar.le_trans (hqb axis).1 (hb axis)⟩

end Box

/-- A vector whose components are numbers. -/
def Vec3.IsNumber (v : Vec3) : Prop := ∀ axis, Scalar.IsNumber (v.along axis)

/-- A point with finite coordinates. -/
def Vec3.IsReal (p : Vec3) : Prop := ∀ axis, ∃ r, Scalar.IsReal (p.along axis) r

theorem Vec3.isReal_of_isFinite {p : Vec3} (h : p.isFinite = true) : p.IsReal := by
  simp only [Vec3.isFinite, Bool.and_eq_true] at h
  intro axis
  cases axis
  · exact Scalar.isReal_of_isFinite h.1.1
  · exact Scalar.isReal_of_isFinite h.1.2
  · exact Scalar.isReal_of_isFinite h.2

namespace Box

/-- A box with finite corners. -/
structure IsReal (b : Box) : Prop where
  min : b.min.IsReal
  max : b.max.IsReal

theorem isReal_of_isFinite {b : Box} (h : b.isFinite = true) : b.IsReal := by
  rw [Box.isFinite, Bool.and_eq_true] at h
  exact ⟨Vec3.isReal_of_isFinite h.1, Vec3.isReal_of_isFinite h.2⟩

theorem contains_self {b : Box} (hb : b.IsReal) : b.contains b = true := by
  rw [contains_iff]
  intro axis
  obtain ⟨r, hr⟩ := hb.min axis
  obtain ⟨s, hs⟩ := hb.max axis
  exact ⟨Scalar.le_refl hr.isNumber, Scalar.le_refl hs.isNumber⟩

/-- The points of a finite box are finite. -/
theorem IsReal.of_containsPoint {b : Box} {p : Vec3} (hb : b.IsReal)
    (h : b.containsPoint p = true) : p.IsReal := by
  intro axis
  obtain ⟨hlow, hhigh⟩ := containsPoint_iff.mp h axis
  obtain ⟨lo, hlo⟩ := hb.min axis
  obtain ⟨hi, hhi⟩ := hb.max axis
  obtain ⟨r, hr, -⟩ := hlo.between hhi hlow hhigh
  exact ⟨r, hr⟩

theorem IsReal.of_contains {b o : Box} (hb : b.IsReal) (ho : o.Ordered)
    (hcontains : b.contains o = true) : o.IsReal where
  min := hb.of_containsPoint (containsPoint_min ho hcontains)
  max := hb.of_containsPoint (containsPoint_max ho hcontains)

end Box

end Broadphase
