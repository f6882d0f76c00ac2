import Mathlib
import Broadphase.Proofs.Ball
import Broadphase.Proofs.Frustum
import Broadphase.Proofs.Grid.Cells
import Broadphase.Proofs.Grid.Walk
import Broadphase.Proofs.LinearScan

/-!
Which matches a query of a grid reports. An entity is reported exactly if the query takes
a cell of its block. A ball takes one if the point of the box nearest to its center is
between the rounded ends of the ball and inside the bounds of its own cell; a viewing
volume does if it meets a part of the box that is inside the bounds of a cell. Neither
follows from meeting the box, because the bounds of a cell are rounded after the cell has
been chosen. On a lattice nothing is rounded where it matters, and every ball reports
what the scan does.
-/

namespace Broadphase

open Scalar

namespace Box

variable {b : Box} {c p : Vec3} {radius : Float32} {q : ℤ}

theorem OnLattice.clamp (hb : b.OnLattice q) (hc : c.OnLattice q) :
    (c.clamp b.min b.max).OnLattice q := by
  intro axis
  rw [clamp_along, nearestIn, Scalar.lesser, Scalar.greater]
  split_ifs
  · exact hb.max axis
  · exact hb.min axis
  · exact hb.max axis
  · exact hc axis

/-- On a lattice a point in a ball is between the ends of the ball, because
rounding keeps the squares of different distances on an axis apart. -/
theorem containsPoint_around_of_onLattice (hlow : -74 ≤ q) (hhigh : q ≤ 40)
    (hp : p.OnLattice q) (hc : c.OnLattice q) (hr : Scalar.OnLattice q radius)
    (hradius : 0 ≤ radius) (hnear : p.distanceSquared c ≤ radius * radius) :
    (around c (.splat radius)).containsPoint p = true := by
  rw [containsPoint_iff]
  intro axis
  obtain ⟨ip, hip, hpoint⟩ := hp axis
  obtain ⟨ic, hic, hcenter⟩ := hc axis
  obtain ⟨ir, hir, hreach⟩ := hr
  have hnonneg : 0 ≤ ir := by
    have hzero : latticePoint q 0 = 0 := by
      rw [latticePoint, Int.cast_zero, zero_mul]
    rw [← latticePoint_le_iff (q := q), hzero]
    exact (isReal_zero.le_iff hreach).mp hradius
  have hdifference : Scalar.IsReal ((p - c).along axis) (latticePoint q (ip - ic)) := by
    rw [Vec3.sub_along]
    exact hpoint.lattice_sub hcenter (by omega) (by omega) (by omega)
  have hsquares : rounded (latticePoint (2 * q) ((ip - ic) * (ip - ic))) ≤
      rounded (latticePoint (2 * q) (ir * ir)) := by
    rw [← latticePoint_square, ← latticePoint_square, ← (hdifference.mul hdifference).2,
      ← (hreach.mul hreach).2]
    have hnumber := Vec3.isNumber_sub hp.isReal hc.isReal
    exact (Vec3.square_along_le hnumber axis).trans (le_iff.mp hnear).2.2
  have hdistance := natAbs_le_of_rounded_square_le hlow hhigh hir hsquares
  have hlower := hcenter.lattice_sub hreach (by omega) (by omega) (by omega)
  have hupper := hcenter.lattice_add hreach (by omega) (by omega) (by omega)
  have hsplat : (Vec3.splat radius).along axis = radius := by
    cases axis <;> rfl
  rw [around_min_along, around_max_along, hsplat]
  constructor
  · exact (hlower.le_iff hpoint).mpr (latticePoint_le_iff.mpr (by omega))
  · exact (hpoint.le_iff hupper).mpr (latticePoint_le_iff.mpr (by omega))

end Box

namespace Grid

variable {g : Grid} {s : ℝ} {box part : Box} {center : Vec3} {radius : Float32}

/-- The cell of a point is one that a ball query looks at, and has the point in its
bounds. -/
structure Reaches (g : Grid) (center : Vec3) (radius : Float32) (p : Vec3) : Prop where
  inRange : (Box.around center (.splat radius)).containsPoint p = true
  housed : g.Houses (.ofPoint p)

theorem accepts_sphere (hsize : IsReal g.config.cellSize s) (hs : 0 < s) (hbox : box.IsReal)
    (hcenter : center.IsReal) (hmeets : box.intersectsSphere center radius = true)
    (hreaches : g.Reaches center radius (center.clamp box.min box.max)) :
    g.Accepts (.sphere center radius) (g.cellKey (center.clamp box.min box.max)) := by
  have hpoint := Box.intersectsSphere_clamp hbox hcenter hmeets
  refine ⟨?_, contains_cellKey hsize hs hreaches.inRange, ?_⟩
  · rw [Box.intersectsSphere, Bool.and_eq_true, decide_eq_true_eq] at hmeets
    exact hmeets.1
  · refine Box.intersectsSphere_of_contains hreaches.housed.isReal ?_ hcenter
      hreaches.housed.contains hpoint
    intro axis
    obtain ⟨r, hr⟩ := hbox.clamp hcenter axis
    exact Scalar.le_refl hr.isNumber

theorem accepts_frustum {f : Frustum} (hpart : part.IsReal) (hhoused : g.Houses part)
    (hmeets : f.intersectsBox part = true) : g.Accepts (.frustum f) (g.cellKey part.min) :=
  Frustum.intersectsBox_of_contains hhoused.isReal hpart hhoused.contains hmeets

/-- On a lattice a ball that meets a box reaches the point nearest to its center. -/
theorem reaches_of_onLattice {q j : ℤ} (hsize : IsReal g.config.cellSize (2 ^ j))
    (hlow : -74 ≤ q) (hhigh : q ≤ 40) (hfine : q ≤ j) (hcoarse : j ≤ 75)
    (hbox : box.OnLattice q) (hcenter : center.OnLattice q) (hradius : OnLattice q radius)
    (hmeets : box.intersectsSphere center radius = true) :
    g.Reaches center radius (center.clamp box.min box.max) := by
  rw [Box.intersectsSphere, Bool.and_eq_true, decide_eq_true_eq, decide_eq_true_eq] at hmeets
  obtain ⟨hnonneg, hnear⟩ := hmeets
  have hnearest := hbox.clamp hcenter
  constructor
  · exact Box.containsPoint_around_of_onLattice hlow hhigh hnearest hcenter hradius hnonneg hnear
  · exact houses_of_onLattice hsize hfine (by omega) (by omega) (by omega) ⟨hnearest, hnearest⟩ rfl

/-- What the scan reports for a ball is reported if the ball reaches the point of the box
nearest to its center, and a box with a visible part that a cell houses is reported for a
viewing volume. With a cell size of `2 ^ j` and coordinates on a lattice of spacing
`2 ^ q` no ball misses an entity of the scan, and no viewing volume one in a single cell. -/
theorem never_misses_of_run {config : GridConfig} {g₀ : Grid}
    (hcreate : (create config).1 = .ok g₀) {changes : List Change}
    (hfinite : FiniteBoxes changes) (hordered : OrderedBoxes changes) (deterministic : Bool)
    {e : Handle} {box : Box} (htracked : trackedBoxes changes e = some box) :
    let g := SpatialIndex.run g₀ changes
    let scan := SpatialIndex.run (LinearScan.empty deterministic) changes
    (∀ center radius, center.isFinite = true →
      e ∈ SpatialIndex.query scan (.sphere center radius) →
      g.Reaches center radius (center.clamp box.min box.max) →
      e ∈ SpatialIndex.query g (.sphere center radius)) ∧
    (∀ f part, box.contains part = true → part.Ordered → g.Houses part →
      f.intersectsBox part = true →
      e ∈ SpatialIndex.query scan (.frustum f) ∧ e ∈ SpatialIndex.query g (.frustum f)) ∧
    ∀ q j : ℤ, -74 ≤ q → q ≤ 40 → q ≤ j → j ≤ 75 → IsReal config.cellSize (2 ^ j) →
      box.OnLattice q →
      (∀ center radius, center.OnLattice q → OnLattice q radius →
        e ∈ SpatialIndex.query scan (.sphere center radius) →
        e ∈ SpatialIndex.query g (.sphere center radius)) ∧
      ∀ f, (g.cellRange box).isSingle = true → e ∈ SpatialIndex.query scan (.frustum f) →
        e ∈ SpatialIndex.query g (.frustum f) := by
  intro g scan
  obtain ⟨hfiled, hconfig, hranges⟩ := filed_of_create hcreate changes
  obtain ⟨s, hsize, hs⟩ := GridConfig.exists_size (eq_empty_of_create hcreate).2
  rw [← hconfig] at hsize
  have hbox := isReal_of_tracked hfinite htracked
  have horder := ordered_of_tracked hordered htracked
  have hblock : g.ranges[e]? = some (g.cellRange box) := by
    rw [hranges, htracked, Option.map_some]
  have hmem := mem_query_iff hfiled hblock
  have hscan (region : Region) :
      e ∈ SpatialIndex.query scan region ↔ region.meets box = true := by
    obtain ⟨-, hanswer⟩ := LinearScan.answer_run deterministic changes region
    rw [(LinearScan.query_perm scan region).mem_iff, hanswer, htracked]
    simp only [Option.some.injEq, exists_eq_left']
  have hsphere (center : Vec3) (radius : Float32) (hcenter : center.IsReal)
      (hmeets : e ∈ SpatialIndex.query scan (.sphere center radius))
      (hreaches : g.Reaches center radius (center.clamp box.min box.max)) :
      e ∈ SpatialIndex.query g (.sphere center radius) :=
    (hmem _).mpr ⟨_, contains_cellKey hsize hs (Box.containsPoint_clamp hbox horder hcenter),
      accepts_sphere hsize hs hbox hcenter ((hscan _).mp hmeets) hreaches⟩
  have hfrustum (f : Frustum) (part : Box) (hpart : box.contains part = true)
      (horder' : part.Ordered) (hhoused : g.Houses part) (hmeets : f.intersectsBox part = true) :
      e ∈ SpatialIndex.query g (.frustum f) :=
    (hmem _).mpr ⟨_, contains_cellKey hsize hs (Box.containsPoint_min horder' hpart),
      accepts_frustum (hbox.of_contains horder' hpart) hhoused hmeets⟩
  refine ⟨fun center radius hcenter => hsphere center radius (Vec3.isReal_of_isFinite hcenter),
    ?_, ?_⟩
  · intro f part hpart horder' hhoused hmeets
    refine ⟨(hscan _).mpr ?_, hfrustum f part hpart horder' hhoused hmeets⟩
    exact Frustum.intersectsBox_of_contains hbox (hbox.of_contains horder' hpart) hpart hmeets
  · intro q j hlow hhigh hfine hcoarse hpower hlattice
    rw [← hconfig] at hpower
    constructor
    · intro center radius hcenter hradius hmeets
      exact hsphere center radius hcenter.isReal hmeets (reaches_of_onLattice hpower hlow hhigh
        hfine hcoarse hlattice hcenter hradius ((hscan _).mp hmeets))
    · intro f hsingle hmeets
      have hhouses := houses_of_onLattice hpower hfine (by omega) (by omega) (by omega) hlattice
        (of_decide_eq_true hsingle)
      exact hfrustum f box (Box.contains_self hbox) horder hhouses ((hscan _).mp hmeets)

/-- A box over 64 cells is met at its corner by a ball whose center is in another cell. -/
theorem never_misses_of_run_wide :
    (⟨1, 0⟩ : Handle) ∈ SpatialIndex.query
      (SpatialIndex.run (empty {}) [.update ⟨1, 0⟩ .zero (some ⟨.splat (-100), .splat 100⟩)])
      (.sphere (.splat 130) 60) := by
  have hcreate : (create {}).1 = .ok (empty {}) := create_eq_ok (by decide +kernel)
  have hfinite : FiniteBoxes [.update ⟨1, 0⟩ .zero (some ⟨.splat (-100), .splat 100⟩)] :=
    finiteBoxes_iff.mpr (by decide +kernel)
  have hordered : OrderedBoxes [.update ⟨1, 0⟩ .zero (some ⟨.splat (-100), .splat 100⟩)] :=
    orderedBoxes_iff.mpr (by decide +kernel)
  have htracked : trackedBoxes [.update ⟨1, 0⟩ .zero (some ⟨.splat (-100), .splat 100⟩)] ⟨1, 0⟩ =
      some ⟨.splat (-100), .splat 100⟩ := rfl
  refine (never_misses_of_run hcreate hfinite hordered false htracked).1 (.splat 130) 60
    (by decide +kernel) (by decide +kernel) ⟨by decide +kernel, ⟨Box.isReal_of_isFinite ?_, ?_⟩⟩
  · decide +kernel
  · decide +kernel

/-- The quotient of 3.3 and the cell size 1.1 is rounded up to 3, and the rounded bounds of
cell 3 begin above 3.3. So neither a ball around the point nor six half-spaces up to it
take the cell in which the point is stored. -/
theorem query_misses_stored :
    (create { cellSize := 1.1 }).1 = .ok (empty { cellSize := 1.1 }) ∧
      FiniteBoxes [.update ⟨1, 0⟩ ⟨3.3, 0, 0⟩ none] ∧
      OrderedBoxes [.update ⟨1, 0⟩ ⟨3.3, 0, 0⟩ none] ∧
      (SpatialIndex.query (SpatialIndex.run (LinearScan.empty false)
          [.update ⟨1, 0⟩ ⟨3.3, 0, 0⟩ none]) (.sphere ⟨3.3, 0, 0⟩ 0) = [⟨1, 0⟩] ∧
        SpatialIndex.query (SpatialIndex.run (empty { cellSize := 1.1 })
          [.update ⟨1, 0⟩ ⟨3.3, 0, 0⟩ none]) (.sphere ⟨3.3, 0, 0⟩ 0) = []) ∧
      (SpatialIndex.query (SpatialIndex.run (LinearScan.empty false)
          [.update ⟨1, 0⟩ ⟨3.3, 0, 0⟩ none])
          (.frustum ⟨⟨⟨-1, 0, 0⟩, 3.3⟩, ⟨⟨-1, 0, 0⟩, 3.3⟩, ⟨⟨-1, 0, 0⟩, 3.3⟩, ⟨⟨-1, 0, 0⟩, 3.3⟩,
            ⟨⟨-1, 0, 0⟩, 3.3⟩, ⟨⟨-1, 0, 0⟩, 3.3⟩⟩) = [⟨1, 0⟩] ∧
        SpatialIndex.query (SpatialIndex.run (empty { cellSize := 1.1 })
          [.update ⟨1, 0⟩ ⟨3.3, 0, 0⟩ none])
          (.frustum ⟨⟨⟨-1, 0, 0⟩, 3.3⟩, ⟨⟨-1, 0, 0⟩, 3.3⟩, ⟨⟨-1, 0, 0⟩, 3.3⟩, ⟨⟨-1, 0, 0⟩, 3.3⟩,
            ⟨⟨-1, 0, 0⟩, 3.3⟩, ⟨⟨-1, 0, 0⟩, 3.3⟩⟩) = []) := by
  refine ⟨create_eq_ok ?_, finiteBoxes_iff.mpr ?_, orderedBoxes_iff.mpr ?_, ⟨?_, ?_⟩, ⟨?_, ?_⟩⟩ <;>
    decide +kernel

end Grid

end Broadphase
