import Mathlib
import Broadphase.Scalar
import Broadphase.Proofs.Scalar.Quotient

/-!
Lattices of binary32 numbers. The multiples of a power of two with coefficients of at
most 24 bits are binary32 numbers, so sums, differences and quotients by powers of
two stay exact as long as the coefficients do. Squares are rounded, but the squares
of different coefficients of at most 23 bits stay different.
-/

namespace Broadphase

namespace Scalar

open Float.Model Float.Model.UnpackedFloat

section Points

variable {q i k : ℤ}

theorem latticePoint_neg : latticePoint q (-i) = -latticePoint q i := by
  unfold latticePoint
  push_cast
  ring

theorem latticePoint_add : latticePoint q (i + k) = latticePoint q i + latticePoint q k := by
  unfold latticePoint
  push_cast
  ring

theorem latticePoint_sub : latticePoint q (i - k) = latticePoint q i - latticePoint q k := by
  unfold latticePoint
  push_cast
  ring

theorem latticePoint_le_iff : latticePoint q i ≤ latticePoint q k ↔ i ≤ k := by
  unfold latticePoint
  rw [mul_le_mul_iff_left₀ (by positivity), Int.cast_le]

theorem latticePoint_lt_iff : latticePoint q i < latticePoint q k ↔ i < k := by
  unfold latticePoint
  rw [mul_lt_mul_iff_left₀ (by positivity), Int.cast_lt]

theorem latticePoint_square : latticePoint q i * latticePoint q i =
    latticePoint (2 * q) (i * i) := by
  unfold latticePoint
  rw [two_mul, zpow_add₀ (by norm_num)]
  push_cast
  ring

/-- A coefficient with trailing zeros belongs to a coarser lattice. -/
theorem latticePoint_shift (u : ℕ) : latticePoint q (i * 2 ^ u) = latticePoint (q + u) i := by
  unfold latticePoint
  rw [zpow_add₀ (by norm_num), zpow_natCast]
  push_cast
  ring

theorem rounded_latticePoint (hi : i.natAbs < 2 ^ 24) (hlow : -149 ≤ q) (hhigh : q ≤ 104) :
    rounded (latticePoint q i) = latticePoint q i := by
  have hpositive (m : ℕ) (hm : m < 2 ^ 24) : rounded (latticePoint q m) = latticePoint q m := by
    have hmagnitude : latticePoint q m = magnitude m q := by
      rw [latticePoint, magnitude, Int.cast_natCast]
    have hgrid : onGrid (magnitude m q) = magnitude m q := onGrid_of_short m q hm hlow
    have hnonneg : 0 ≤ magnitude m q := by
      unfold magnitude
      positivity
    rw [hmagnitude, rounded_of_nonneg hnonneg, hgrid, clip_of_lt (magnitude_lt_of_short hm hhigh)]
  rcases Int.eq_nat_or_neg i with ⟨m, rfl | rfl⟩
  · exact hpositive m (by omega)
  · rw [latticePoint_neg, rounded_neg, hpositive m (by omega), EReal.coe_neg]

end Points

section Arithmetic

variable {x y : Float32} {q i k : ℤ}

/-- What is rounded to a lattice point is that point. -/
theorem isReal_of_rounded (h : IsNumber x ∧ value x = rounded (latticePoint q i))
    (hi : i.natAbs < 2 ^ 24) (hlow : -149 ≤ q) (hhigh : q ≤ 104) : IsReal x (latticePoint q i) :=
  ⟨h.1, h.2.trans (rounded_latticePoint hi hlow hhigh)⟩

theorem IsReal.lattice_add (hx : IsReal x (latticePoint q i)) (hy : IsReal y (latticePoint q k))
    (hsum : (i + k).natAbs < 2 ^ 24) (hlow : -149 ≤ q) (hhigh : q ≤ 104) :
    IsReal (x + y) (latticePoint q (i + k)) :=
  isReal_of_rounded (latticePoint_add ▸ hx.add hy) hsum hlow hhigh

theorem IsReal.lattice_sub (hx : IsReal x (latticePoint q i)) (hy : IsReal y (latticePoint q k))
    (hdifference : (i - k).natAbs < 2 ^ 24) (hlow : -149 ≤ q) (hhigh : q ≤ 104) :
    IsReal (x - y) (latticePoint q (i - k)) :=
  isReal_of_rounded (latticePoint_sub ▸ hx.sub hy) hdifference hlow hhigh

theorem isReal_toFloat32 {n : UInt32} (hn : n.toNat < 2 ^ 24) :
    IsReal n.toFloat32 (latticePoint 0 n.toNat) := by
  have hstores : Stores (UnpackedFloat.ofUInt32 Format.binary32 n) (latticePoint 0 n.toNat) :=
    stores_normalize n.toNat 0 .positive
  exact isReal_of_rounded hstores (by omega) (by norm_num) (by norm_num)

/-- Integers of at most 24 bits are converted exactly. -/
theorem isReal_ofInt32 {n : Int32} (hn : n.toInt.natAbs < 2 ^ 24) :
    IsReal (ofInt32 n) (latticePoint 0 n.toInt) := by
  have hnonneg (n : Int32) (hn : n.toInt.natAbs < 2 ^ 24) (hle : 0 ≤ n) :
      IsReal n.toUInt32.toFloat32 (latticePoint 0 n.toInt) := by
    have hnat : (n.toUInt32.toNat : ℤ) = n.toInt := by
      rw [Int32.toNat_toUInt32_of_le hle]
      exact Int.toNat_of_nonneg (Int32.le_iff_toInt_le.mp hle)
    have hreal := isReal_toFloat32 (n := n.toUInt32) (by omega)
    rwa [hnat] at hreal
  unfold ofInt32
  split_ifs with hneg
  · have hlt : n.toInt < 0 := Int32.lt_iff_toInt_lt.mp hneg
    have hopposite : (-n).toInt = -n.toInt := by
      rw [Int32.toInt_neg]
      exact Int.bmod_eq_of_le (by omega) (by omega)
    have hreal := (hnonneg (-n) (by omega)
      (Int32.le_iff_toInt_le.mpr (by rw [hopposite]; exact (neg_pos.mpr hlt).le))).neg
    rwa [hopposite, latticePoint_neg, neg_neg] at hreal
  · exact hnonneg n hn (Int32.not_lt.mp hneg)

/-- Numbers on a lattice whose coefficients leave a bit to spare, so that the sum of two
is on the lattice too. -/
def OnLattice (q : ℤ) (x : Float32) : Prop :=
  ∃ i : ℤ, i.natAbs < 2 ^ 23 ∧ IsReal x (latticePoint q i)

end Arithmetic

/-- Between neighbouring squares there are two neighbouring numbers of at most 24 bits,
up to a power of two that does not exceed the greater root. -/
theorem exists_between_squares {a : ℕ} (ha : a < 2 ^ 23) : ∃ m u : ℕ, m + 1 < 2 ^ 24 ∧ u ≤ 23 ∧
    a * a ≤ m * 2 ^ u ∧ (m + 1) * 2 ^ u ≤ (a + 1) * (a + 1) := by
  obtain ⟨u, hu⟩ : ∃ u, Nat.log 2 (a + 1) = u := ⟨_, rfl⟩
  have hlow : 2 ^ u ≤ a + 1 := hu ▸ Nat.pow_log_le_self 2 a.succ_ne_zero
  have hhigh : a + 1 < 2 ^ u * 2 := hu ▸ Nat.lt_pow_succ_log_self one_lt_two (a + 1)
  have hbits : u ≤ 23 := by
    rw [← hu]
    exact (Nat.log_mono_right (show a + 1 ≤ 2 ^ 23 by omega)).trans
      (Nat.log_pow one_lt_two 23).le
  -- the square, rounded up to a multiple of the power
  have hsplit := Nat.div_add_mod (a * a + 2 ^ u - 1) (2 ^ u)
  have hrest := Nat.mod_lt (a * a + 2 ^ u - 1) (Nat.two_pow_pos u)
  have hfloor : a * a ≤ (a * a + 2 ^ u - 1) / 2 ^ u * 2 ^ u := by
    rw [mul_comm _ (2 ^ u)]
    omega
  have hceil : ((a * a + 2 ^ u - 1) / 2 ^ u + 1) * 2 ^ u ≤ (a + 1) * (a + 1) := by
    have hsquare : (a + 1) * (a + 1) = a * a + 2 * a + 1 := by ring
    rw [hsquare, add_mul, one_mul, mul_comm _ (2 ^ u)]
    omega
  refine ⟨_, u, ?_, hbits, hfloor, hceil⟩
  have hshort : (a * a + 2 ^ u - 1) / 2 ^ u + 1 < (a + 1) * 2 := by
    refine Nat.lt_of_mul_lt_mul_right (a := 2 ^ u) (hceil.trans_lt ?_)
    rw [mul_assoc, mul_comm 2]
    exact Nat.mul_lt_mul_of_pos_left hhigh a.succ_pos
  omega

/-- Rounding keeps the squares of different coefficients apart, on lattices so neither fine
that squares vanish nor so coarse that the smaller one overflows. -/
theorem rounded_square_lt {a b : ℕ} (hab : a < b) (ha : a < 2 ^ 23) {q : ℤ} (hlow : -74 ≤ q)
    (hhigh : q ≤ 40) :
    rounded (latticePoint (2 * q) (a * a)) < rounded (latticePoint (2 * q) (b * b)) := by
  obtain ⟨m, u, hm, hu, hfloor, hceil⟩ := exists_between_squares ha
  have hexact (n : ℕ) (hn : n < 2 ^ 24) :
      rounded (latticePoint (2 * q) (n * 2 ^ u)) = latticePoint (2 * q) (n * 2 ^ u) := by
    rw [latticePoint_shift]
    exact rounded_latticePoint (by omega) (by omega) (by omega)
  have hbelow : latticePoint (2 * q) (a * a) ≤ latticePoint (2 * q) (m * 2 ^ u) :=
    latticePoint_le_iff.mpr (by exact_mod_cast hfloor)
  have habove : latticePoint (2 * q) ((m + 1 : ℕ) * 2 ^ u) ≤ latticePoint (2 * q) (b * b) :=
    latticePoint_le_iff.mpr (by exact_mod_cast hceil.trans (Nat.mul_le_mul hab hab))
  calc
    rounded (latticePoint (2 * q) (a * a)) ≤ latticePoint (2 * q) (m * 2 ^ u) :=
      (rounded_mono hbelow).trans_eq (hexact m (by omega))
    _ < latticePoint (2 * q) ((m + 1 : ℕ) * 2 ^ u) := by
      rw [EReal.coe_lt_coe_iff, latticePoint_lt_iff]
      push_cast
      exact mul_lt_mul_of_pos_right (lt_add_one _) (by positivity)
    _ ≤ rounded (latticePoint (2 * q) (b * b)) :=
      (hexact (m + 1) hm).symm.trans_le (rounded_mono habove)

theorem natAbs_le_of_rounded_square_le {q i k : ℤ} (hlow : -74 ≤ q) (hhigh : q ≤ 40)
    (hk : k.natAbs < 2 ^ 23)
    (h : rounded (latticePoint (2 * q) (i * i)) ≤ rounded (latticePoint (2 * q) (k * k))) :
    i.natAbs ≤ k.natAbs := by
  by_contra hlt
  refine absurd h (not_le.mpr ?_)
  rw [← Int.natAbs_mul_self' i, ← Int.natAbs_mul_self' k]
  exact rounded_square_lt (not_le.mp hlt) hk hlow hhigh

end Scalar

end Broadphase
