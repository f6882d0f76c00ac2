import Mathlib
import Broadphase.Proofs.Grid.Cells
import Broadphase.Proofs.Grid.Walk

/-!
Points and boxes miss nothing. Cell coordinates keep the order of positions, infinite ones
and those beyond the last cell included, so the block of a box has the cell of every point
in it, and the blocks of two overlapping boxes have a cell in common. Unlike balls and
viewing volumes, these queries never ask for the bounds of a cell.
-/

namespace Broadphase

namespace CellRange

theorem intersection_min_along (r s : CellRange) (axis : Vec3.Axis) :
    (r.intersection s).min.along axis = upper (r.min.along axis) (s.min.along axis) := by
  cases axis <;> rfl

theorem intersection_max_along (r s : CellRange) (axis : Vec3.Axis) :
    (r.intersection s).max.along axis = lower (r.max.along axis) (s.max.along axis) := by
  cases axis <;> rfl

/-- Two blocks have a cell in common if on every axis none of them begins behind the end of
one of them. -/
theorem exists_common {r s : CellRange}
    (hr : ∀ axis, r.min.along axis ≤ r.max.along axis ∧ r.min.along axis ≤ s.max.along axis)
    (hs : ∀ axis, s.min.along axis ≤ r.max.along axis ∧ s.min.along axis ≤ s.max.along axis) :
    ∃ k, r.contains k = true ∧ s.contains k = true := by
  refine ⟨(r.intersection s).min, contains_intersection.mp ?_⟩
  rw [contains_iff_along]
  intro axis
  constructor
  · exact Int32.le_refl _
  · rw [intersection_min_along, intersection_max_along, upper_le_iff, le_lower_iff, le_lower_iff]
    exact ⟨hr axis, hs axis⟩

end CellRange

namespace Grid

variable {g : Grid} {s : ℝ}

/-- The blocks of overlapping boxes have a cell in common. -/
theorem exists_common_cell (hsize : Scalar.IsReal g.config.cellSize s) (hs : 0 < s) {b o : Box}
    (hb : b.Ordered) (ho : o.Ordered) (h : b.intersects o = true) :
    ∃ k, (g.cellRange b).contains k = true ∧ (g.cellRange o).contains k = true := by
  rw [Box.intersects_iff] at h
  apply CellRange.exists_common
  · intro axis
    simp only [cellRange, cellKey_along]
    exact ⟨cellCoordinate_mono hsize hs (hb axis), cellCoordinate_mono hsize hs (h axis).1⟩
  · intro axis
    simp only [cellRange, cellKey_along]
    exact ⟨cellCoordinate_mono hsize hs (h axis).2, cellCoordinate_mono hsize hs (ho axis)⟩

/-- After any changes with ordered boxes, a tracked entity is found at every point of its
box and by every ordered box that overlaps it, however far out they are. -/
theorem point_box_never_miss_of_run {config : GridConfig} {g₀ : Grid}
    (hcreate : (create config).1 = .ok g₀) {changes : List Change}
    (hordered : OrderedBoxes changes) {e : Handle} {box : Box}
    (htracked : trackedBoxes changes e = some box) :
    let g := SpatialIndex.run g₀ changes
    (∀ p, box.containsPoint p = true → e ∈ SpatialIndex.query g (.point p)) ∧
      ∀ query : Box, query.Ordered → box.intersects query = true →
        e ∈ SpatialIndex.query g (.box query) := by
  intro g
  obtain ⟨hfiled, hconfig, hranges⟩ := filed_of_create hcreate changes
  obtain ⟨s, hsize, hs⟩ := GridConfig.exists_size (eq_empty_of_create hcreate).2
  rw [← hconfig] at hsize
  have hblock : g.ranges[e]? = some (g.cellRange box) := by
    rw [hranges, htracked, Option.map_some]
  constructor
  · intro p hp
    rw [mem_query_iff hfiled hblock]
    exact ⟨g.cellKey p, contains_cellKey hsize hs hp, rfl⟩
  · intro query hquery hmeets
    rw [mem_query_iff hfiled hblock]
    exact exists_common_cell hsize hs (ordered_of_tracked hordered htracked) hquery hmeets

/-- A box without an end, filed under the last cell of its axis, is found at a point of
that cell and by a box that only touches it. -/
theorem point_box_never_miss_of_run_saturated :
    let g := SpatialIndex.run (empty {})
      [.update ⟨1, 0⟩ .zero (some ⟨⟨1e30, 0, 0⟩, ⟨1 / 0, 0, 0⟩⟩)]
    (⟨1, 0⟩ : Handle) ∈ SpatialIndex.query g (.point ⟨2e38, 0, 0⟩) ∧
      (⟨1, 0⟩ : Handle) ∈ SpatialIndex.query g (.box ⟨⟨-1 / 0, 0, 0⟩, ⟨1e30, 0, 0⟩⟩) := by
  intro g
  have hcreate : (create {}).1 = .ok (empty {}) := create_eq_ok (by decide +kernel)
  have hordered : OrderedBoxes [.update ⟨1, 0⟩ .zero (some ⟨⟨1e30, 0, 0⟩, ⟨1 / 0, 0, 0⟩⟩)] :=
    orderedBoxes_iff.mpr (by decide +kernel)
  have htracked : trackedBoxes [.update ⟨1, 0⟩ .zero (some ⟨⟨1e30, 0, 0⟩, ⟨1 / 0, 0, 0⟩⟩)]
      ⟨1, 0⟩ = some ⟨⟨1e30, 0, 0⟩, ⟨1 / 0, 0, 0⟩⟩ := rfl
  obtain ⟨hpoint, hbox⟩ := point_box_never_miss_of_run hcreate hordered htracked
  constructor
  · apply hpoint
    decide +kernel
  · apply hbox
    · intro axis
      cases axis <;> decide +kernel
    · decide +kernel

end Grid

end Broadphase
