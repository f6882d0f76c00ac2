import Mathlib
import Broadphase.Grid.Basic
import Broadphase.Proofs.Box
import Broadphase.Proofs.Grid.Range
import Broadphase.Proofs.Scalar.Lattice

/-!
Cells and positions. Cell coordinates keep the order of positions, so the block of a box
has the cells of all points in the box. The bounds of a cell are computed from its key by
rounded arithmetic and need not contain the positions filed under that key; they do when
the cell size is a power of two and the positions are on a lattice.
-/

namespace Broadphase

open Scalar

def CellKey.along (k : CellKey) : Vec3.Axis → Int32
  | .x => k.x
  | .y => k.y
  | .z => k.z

theorem CellRange.contains_iff_along {r : CellRange} {k : CellKey} :
    r.contains k = true ↔
      ∀ axis, r.min.along axis ≤ k.along axis ∧ k.along axis ≤ r.max.along axis := by
  rw [contains_iff]
  constructor
  · rintro ⟨hx, hy, hz⟩ axis
    cases axis
    · exact hx
    · exact hy
    · exact hz
  · intro h
    exact ⟨h .x, h .y, h .z⟩

theorem GridConfig.exists_size {config : GridConfig} (h : config.validate = .ok ()) :
    ∃ s : ℝ, IsReal config.cellSize s ∧ 0 < s := by
  unfold validate at h
  split_ifs at h with hsize
  rw [Bool.and_eq_true, decide_eq_true_eq] at hsize
  obtain ⟨hpositive, hfinite⟩ := hsize
  obtain ⟨s, hs⟩ := isReal_of_isFinite hfinite
  refine ⟨s, hs, ?_⟩
  have hlt := (lt_iff.mp hpositive).2.2
  rwa [isReal_zero.value_eq, hs.value_eq, EReal.coe_lt_coe_iff] at hlt

namespace Grid

variable {g : Grid}

theorem cellKey_along (g : Grid) (p : Vec3) (axis : Vec3.Axis) :
    (g.cellKey p).along axis = cellCoordinate g.config.cellSize (p.along axis) := by
  cases axis <;> rfl

/-- The lower face of a cell on one axis. -/
def lowerFace (size : Float32) (coordinate : Int32) : Float32 := ofInt32 coordinate * size

theorem cellBounds_min_along (g : Grid) (k : CellKey) (axis : Vec3.Axis) :
    (g.cellBounds k).min.along axis = lowerFace g.config.cellSize (k.along axis) := by
  cases axis <;> rfl

theorem cellBounds_max_along (g : Grid) (k : CellKey) (axis : Vec3.Axis) :
    (g.cellBounds k).max.along axis =
      lowerFace g.config.cellSize (k.along axis) + g.config.cellSize := by
  cases axis <;> rfl

theorem cellCoordinate_mono {size p q : Float32} {s : ℝ} (hsize : IsReal size s) (hs : 0 < s)
    (h : p ≤ q) : cellCoordinate size p ≤ cellCoordinate size q :=
  floorInt32_mono (div_mono hsize hs h)

/-- The block of a box has the cell of every point in the box. -/
theorem contains_cellKey {s : ℝ} (hsize : IsReal g.config.cellSize s) (hs : 0 < s) {b : Box}
    {p : Vec3} (h : b.containsPoint p = true) :
    (g.cellRange b).contains (g.cellKey p) = true := by
  rw [CellRange.contains_iff_along]
  intro axis
  obtain ⟨hlow, hhigh⟩ := Box.containsPoint_iff.mp h axis
  rw [cellRange, cellKey_along, cellKey_along, cellKey_along]
  exact ⟨cellCoordinate_mono hsize hs hlow, cellCoordinate_mono hsize hs hhigh⟩

/-- The bounds of the cell that has the lower corner of a box contain all of the box. -/
structure Houses (g : Grid) (part : Box) : Prop where
  isReal : (g.cellBounds (g.cellKey part.min)).IsReal
  contains : (g.cellBounds (g.cellKey part.min)).contains part = true

section Lattice

variable {size x : Float32} {q j i : ℤ}

/-- A coordinate in a lattice of which the cell size is a multiple is floored exactly. -/
theorem toInt_cellCoordinate (hsize : IsReal size (2 ^ j)) (hx : IsReal x (latticePoint q i))
    (hi : i.natAbs < 2 ^ 23) (hfine : q ≤ j) (hcoarse : j ≤ q + 149) :
    (cellCoordinate size x).toInt = ⌊latticePoint (q - j) i⌋ ∧
      (cellCoordinate size x).toInt.natAbs ≤ 2 ^ 23 := by
  have hdivided : latticePoint q i / 2 ^ j = latticePoint (q - j) i := by
    rw [latticePoint, latticePoint, mul_div_assoc, ← zpow_sub₀ (by norm_num)]
  have hquotient : IsReal (x / size) (latticePoint (q - j) i) :=
    isReal_of_rounded (hdivided ▸ hx.div hsize (by positivity)) (by omega) (by omega) (by omega)
  -- the quotient is not greater than the coefficient
  have hunit : (2 : ℝ) ^ (q - j) ≤ 1 := zpow_le_one_of_nonpos₀ (by norm_num) (by omega)
  have habs : |latticePoint (q - j) i| ≤ 2 ^ 23 := by
    have hcast : |(i : ℝ)| ≤ 2 ^ 23 := by
      rw [← Int.cast_abs]
      exact_mod_cast (Int.abs_eq_natAbs i).trans_le (by omega)
    rw [latticePoint, abs_mul, abs_of_pos (by positivity : (0 : ℝ) < 2 ^ (q - j))]
    exact (mul_le_of_le_one_right (abs_nonneg _) hunit).trans hcast
  obtain ⟨hlow, hhigh⟩ := abs_le.mp habs
  have hfloor : -2 ^ 23 ≤ ⌊latticePoint (q - j) i⌋ := by
    rw [Int.le_floor]
    exact_mod_cast hlow
  have hfloor' : ⌊latticePoint (q - j) i⌋ ≤ 2 ^ 23 := by
    exact_mod_cast (Int.floor_le _).trans hhigh
  have hclamped : (cellCoordinate size x).toInt = ⌊latticePoint (q - j) i⌋ := by
    rw [cellCoordinate, floorInt32_of_isReal hquotient, toInt_ofIntClamp]
    omega
  exact ⟨hclamped, by omega⟩

theorem isReal_faces (hsize : IsReal size (2 ^ j)) (hlow : -149 ≤ j) (hhigh : j ≤ 104) {n : Int32}
    (hn : n.toInt.natAbs ≤ 2 ^ 23) : IsReal (lowerFace size n) (latticePoint j n.toInt) ∧
      IsReal (lowerFace size n + size) (latticePoint j (n.toInt + 1)) := by
  have hproduct : latticePoint 0 n.toInt * 2 ^ j = latticePoint j n.toInt := by
    rw [latticePoint, latticePoint, zpow_zero, mul_one]
  have hlower : IsReal (lowerFace size n) (latticePoint j n.toInt) :=
    isReal_of_rounded (hproduct ▸ (isReal_ofInt32 (by omega)).mul hsize) (by omega) hlow hhigh
  have hone : latticePoint j 1 = 2 ^ j := by
    rw [latticePoint, Int.cast_one, one_mul]
  exact ⟨hlower, IsReal.lattice_add hlower (hone ▸ hsize) (by omega) hlow hhigh⟩

/-- A position in a lattice lies between the faces of its cell. -/
theorem between_faces (hsize : IsReal size (2 ^ j)) (hx : IsReal x (latticePoint q i))
    (hi : i.natAbs < 2 ^ 23) (hfine : q ≤ j) (hcoarse : j ≤ q + 149) (hlow : -149 ≤ j)
    (hhigh : j ≤ 104) :
    lowerFace size (cellCoordinate size x) ≤ x ∧
      x ≤ lowerFace size (cellCoordinate size x) + size := by
  obtain ⟨hfloor, hbound⟩ := toInt_cellCoordinate hsize hx hi hfine hcoarse
  obtain ⟨hlower, hupper⟩ := isReal_faces hsize hlow hhigh hbound
  have hscaled : latticePoint q i = latticePoint (q - j) i * 2 ^ j := by
    rw [latticePoint, latticePoint, mul_assoc, ← zpow_add₀ (by norm_num), sub_add_cancel]
  have hpositive : (0 : ℝ) < 2 ^ j := by positivity
  rw [hlower.le_iff hx, hx.le_iff hupper, hfloor, hscaled, latticePoint.eq_def j,
    latticePoint.eq_def j]
  constructor
  · exact mul_le_mul_of_nonneg_right (Int.floor_le _) hpositive.le
  · push_cast
    exact mul_le_mul_of_nonneg_right (Int.lt_floor_add_one _).le hpositive.le

end Lattice

end Grid

/-- A vector on a lattice, coordinate by coordinate. -/
def Vec3.OnLattice (q : ℤ) (v : Vec3) : Prop := ∀ axis, Scalar.OnLattice q (v.along axis)

theorem Vec3.OnLattice.isReal {q : ℤ} {v : Vec3} (h : v.OnLattice q) : v.IsReal := by
  intro axis
  obtain ⟨i, -, hi⟩ := h axis
  exact ⟨_, hi⟩

/-- A box with both corners on a lattice. -/
structure Box.OnLattice (q : ℤ) (b : Box) : Prop where
  min : b.min.OnLattice q
  max : b.max.OnLattice q

/-- Cells whose size is a power of two house the boxes on a lattice that do not leave them. -/
theorem Grid.houses_of_onLattice {g : Grid} {q j : ℤ} (hsize : IsReal g.config.cellSize (2 ^ j))
    (hfine : q ≤ j) (hcoarse : j ≤ q + 149) (hlow : -149 ≤ j) (hhigh : j ≤ 104) {part : Box}
    (hpart : part.OnLattice q) (hsame : g.cellKey part.min = g.cellKey part.max) :
    g.Houses part := by
  have hfaces (axis : Vec3.Axis) :
      ((∃ r, IsReal ((g.cellBounds (g.cellKey part.min)).min.along axis) r) ∧
        ∃ r, IsReal ((g.cellBounds (g.cellKey part.min)).max.along axis) r) ∧
      (g.cellBounds (g.cellKey part.min)).min.along axis ≤ part.min.along axis ∧
        part.max.along axis ≤ (g.cellBounds (g.cellKey part.min)).max.along axis := by
    obtain ⟨i, hi, hmin⟩ := hpart.min axis
    obtain ⟨k, hk, hmax⟩ := hpart.max axis
    have hbound := (toInt_cellCoordinate hsize hmin hi hfine hcoarse).2
    obtain ⟨hlower, hupper⟩ := isReal_faces hsize hlow hhigh hbound
    have hbelow := (between_faces hsize hmin hi hfine hcoarse hlow hhigh).1
    have habove := (between_faces hsize hmax hk hfine hcoarse hlow hhigh).2
    rw [← cellKey_along, ← hsame, cellKey_along] at habove
    rw [cellBounds_min_along, cellBounds_max_along, cellKey_along]
    exact ⟨⟨⟨_, hlower⟩, ⟨_, hupper⟩⟩, hbelow, habove⟩
  exact ⟨⟨fun axis => (hfaces axis).1.1, fun axis => (hfaces axis).1.2⟩,
    Box.contains_iff.mpr fun axis => (hfaces axis).2⟩

end Broadphase
