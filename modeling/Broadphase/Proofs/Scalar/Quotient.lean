import Mathlib
import Broadphase.Scalar
import Broadphase.Proofs.Scalar.Extended

/-!
Quotients of binary32 numbers and their floors. Long division leaves a remainder, which
tells how the fraction compares with one half, so a quotient of finite numbers is the
real quotient, rounded. The floor as a clamped integer keeps the order of numbers.
-/

namespace Broadphase

namespace Scalar

open Float.Model Float.Model.UnpackedFloat

/-- Quotient and remainder of a division tell the real quotient. -/
theorem tells_quotient (n : ℕ) {d : ℕ} (hd : 0 < d) :
    Tells (.ofMantissaAndAccuracy (n / d) (accuracyOfFraction (n % d) d)) ((n : ℝ) / d) := by
  have hpositive : (0 : ℝ) < d := by exact_mod_cast hd
  have hfloor : ⌊(n : ℝ) / d⌋ = ((n / d : ℕ) : ℤ) := by
    rw [Int.floor_eq_iff, Int.cast_natCast, le_div_iff₀ hpositive, div_lt_iff₀ hpositive]
    constructor
    · exact_mod_cast Nat.div_mul_le_self n d
    · rw [mul_comm]
      exact_mod_cast Nat.lt_mul_div_succ n hd
  have hfract : Int.fract ((n : ℝ) / d) = ((n % d : ℕ) : ℝ) / d :=
    Int.fract_div_natCast_eq_div_natCast_mod
  have hzero : ((n % d : ℕ) : ℝ) / d = 0 ↔ n % d = 0 := by
    rw [div_eq_zero_iff, or_iff_left hpositive.ne', Nat.cast_eq_zero]
  have hhalf : (1 : ℝ) / 2 ≤ ((n % d : ℕ) : ℝ) / d ↔ d ≤ 2 * (n % d) := by
    rw [div_le_div_iff₀ (by norm_num) hpositive, one_mul, mul_comm]
    exact_mod_cast Iff.rfl
  have hequal : ((n % d : ℕ) : ℝ) / d = 1 / 2 ↔ d = 2 * (n % d) := by
    rw [div_eq_div_iff hpositive.ne' (by norm_num), one_mul, mul_comm, eq_comm]
    exact_mod_cast Iff.rfl
  unfold accuracyOfFraction
  split_ifs with hrest
  · refine ⟨hfloor, ?_, ?_⟩ <;>
      simp [ExtendedMantissa.ofMantissaAndAccuracy, hfract, hrest]
  · rcases lt_trichotomy (2 * (n % d)) d with hlt | heq | hgt
    · rw [compare_lt_iff_lt.mpr hlt]
      refine ⟨hfloor, ?_, ?_⟩
      · simp only [ExtendedMantissa.ofMantissaAndAccuracy, hfract, hhalf]
        simp [hlt]
      · simp only [ExtendedMantissa.ofMantissaAndAccuracy, hfract, hequal, ne_eq, hzero]
        simp [hrest, hlt.ne']
    · rw [compare_eq_iff_eq.mpr heq]
      refine ⟨hfloor, ?_, ?_⟩
      · simp only [ExtendedMantissa.ofMantissaAndAccuracy, hfract, hhalf]
        simp [heq]
      · simp only [ExtendedMantissa.ofMantissaAndAccuracy, hfract, hequal, ne_eq, hzero]
        simp [heq]
    · rw [compare_gt_iff_gt.mpr hgt]
      refine ⟨hfloor, ?_, ?_⟩
      · simp only [ExtendedMantissa.ofMantissaAndAccuracy, hfract, hhalf]
        simp [hgt.le]
      · simp only [ExtendedMantissa.ofMantissaAndAccuracy, hfract, hequal, ne_eq, hzero]
        simp [hrest, hgt.ne]

/-- The exponent that the division aims at is not coarser than the grid of the quotient. -/
private theorem quotient_le_spacing {m₁ m₂ : ℕ} (h₁ : 0 < m₁) (h₂ : 0 < m₂) (e₁ e₂ : ℤ) :
    Format.binary32.targetExponent (totalExponent m₁ e₁ - totalExponent m₂ e₂) ≤
      spacing (magnitude m₁ e₁ / magnitude m₂ e₂) := by
  have hbits : Format.binary32.mantissaBits = 24 := by decide
  have hleast : Format.binary32.minExponent = -149 := by decide
  have hpos₁ := magnitude_pos h₁ e₁
  have hpos₂ := magnitude_pos h₂ e₂
  have hlog : (m₁.log2 : ℤ) + e₁ - (m₂.log2 + e₂) - 1 ≤
      Int.log 2 (magnitude m₁ e₁ / magnitude m₂ e₂) := by
    rw [← Int.zpow_le_iff_le_log (by norm_num) (div_pos hpos₁ hpos₂), le_div_iff₀ hpos₂,
      ← log_magnitude h₁, ← log_magnitude h₂]
    calc
      ((2 : ℕ) : ℝ) ^ (Int.log 2 (magnitude m₁ e₁) - Int.log 2 (magnitude m₂ e₂) - 1) *
            magnitude m₂ e₂ ≤
          ((2 : ℕ) : ℝ) ^ (Int.log 2 (magnitude m₁ e₁) - Int.log 2 (magnitude m₂ e₂) - 1) *
            ((2 : ℕ) : ℝ) ^ (Int.log 2 (magnitude m₂ e₂) + 1) :=
        mul_le_mul_of_nonneg_left (Int.lt_zpow_succ_log_self (by norm_num) _).le (by positivity)
      _ = ((2 : ℕ) : ℝ) ^ Int.log 2 (magnitude m₁ e₁) := by
        rw [← zpow_add₀ (by norm_num)]
        congr 1
        ring
      _ ≤ magnitude m₁ e₁ := Int.zpow_log_le_self (by norm_num) hpos₁
  unfold Format.targetExponent totalExponent spacing
  rw [hbits, hleast]
  omega

private theorem roundsTo_divide (s : Sign) {m₁ m₂ : ℕ} (h₁ : 0 < m₁) (h₂ : 0 < m₂) (e₁ e₂ : ℤ) :
    RoundsTo s (magnitude m₁ e₁ / magnitude m₂ e₂)
      (roundWithAccuracy Format.binary32 s (divCore Format.binary32 m₁ e₁ m₂ e₂).1
        (divCore Format.binary32 m₁ e₁ m₂ e₂).2.1 (divCore Format.binary32 m₁ e₁ m₂ e₂).2.2) := by
  unfold divCore
  dsimp only
  obtain ⟨target, htarget⟩ : ∃ target, min (e₁ - e₂) (Format.binary32.targetExponent
    (totalExponent m₁ e₁ - totalExponent m₂ e₂)) = target := ⟨_, rfl⟩
  have hshift : ((e₁ - e₂ - target).toNat : ℤ) = e₁ - e₂ - target :=
    Int.toNat_of_nonneg (by omega)
  have hquotient : magnitude m₁ e₁ / magnitude m₂ e₂ / (2 : ℝ) ^ target =
      ((m₁ <<< (e₁ - e₂ - target).toNat : ℕ) : ℝ) / m₂ := by
    have hm₂ : (m₂ : ℝ) ≠ 0 := by exact_mod_cast h₂.ne'
    rw [Nat.shiftLeft_eq]
    push_cast
    rw [← zpow_natCast, hshift, zpow_sub₀ (by norm_num), zpow_sub₀ (by norm_num)]
    unfold magnitude
    field_simp
  rw [htarget]
  refine roundsTo_of_tells s (div_pos (magnitude_pos h₁ e₁) (magnitude_pos h₂ e₂)) ?_ ?_
  · rw [hquotient]
    exact tells_quotient _ h₂
  · exact htarget ▸ (min_le_right _ _).trans (quotient_le_spacing h₁ h₂ e₁ e₂)

private theorem signed_div (s t : Sign) (x y : ℝ) :
    signed (s / t) (x / y) = signed s x / signed t y := by
  cases s <;> cases t <;> simp only [signed, neg_div, div_neg, neg_neg] <;> rfl

/-- The quotient of two finite numbers is the real quotient, rounded. -/
theorem IsReal.div {a b : Float32} {r s : ℝ} (ha : IsReal a r) (hb : IsReal b s) (hs : s ≠ 0) :
    IsNumber (a / b) ∧ value (a / b) = rounded (r / s) := by
  change Stores (UnpackedFloat.div Format.binary32 a.toModel.unpack b.toModel.unpack) (r / s)
  rcases hb.denotes with ⟨sb, -, hzero⟩ | ⟨sb, mb, eb, hmb, hub, hcb, rfl⟩
  · exact absurd hzero hs
  · rcases ha.denotes with ⟨sa, hua, rfl⟩ | ⟨sa, ma, ea, hma, hua, hca, rfl⟩ <;> rw [hua, hub]
    · rw [zero_div]
      exact stores_zero _
    · have hstores := (roundsTo_divide (sa / sb) hma hmb ea eb).stores
        (div_pos (magnitude_pos hma ea) (magnitude_pos hmb eb)).le
      rw [signed_div] at hstores
      exact hstores

/-- A number divided by a positive one, infinities staying as they are. -/
theorem value_div {x d : Float32} {s : ℝ} (hx : IsNumber x) (hd : IsReal d s) (hs : 0 < s) :
    IsNumber (x / d) ∧ value (x / d) = nearest (value x / (s : EReal)) := by
  rcases hx.cases with ⟨sign, hsign⟩ | ⟨r, hr⟩
  · change StoresExtended (UnpackedFloat.div Format.binary32 x.toModel.unpack d.toModel.unpack) _
    have hpos : (0 : EReal) < (s : EReal) := EReal.coe_pos.mpr hs
    rcases hd.denotes with ⟨t, -, rfl⟩ | ⟨t, m, e, hm, hu, -, rfl⟩
    · exact absurd hs (lt_irrefl 0)
    · have ht : t = .positive := by
        have hmagnitude := magnitude_pos hm e
        cases t
        · simp only [signed] at hs
          linarith
        · rfl
      subst ht
      rw [value_of_infinity hsign, hsign, hu]
      cases sign
      · rw [decoded, EReal.bot_div_of_pos_ne_top hpos (EReal.coe_ne_top _)]
        exact storesExtended_infinity .negative
      · rw [decoded, EReal.top_div_of_pos_ne_top hpos (EReal.coe_ne_top _)]
        exact storesExtended_infinity .positive
  · rw [hr.value_eq, ← EReal.coe_div, nearest_coe]
    exact hr.div hd hs.ne'

theorem div_mono {x y d : Float32} {s : ℝ} (hd : IsReal d s) (hs : 0 < s) (h : x ≤ y) :
    x / d ≤ y / d := by
  obtain ⟨hx, hy, hle⟩ := le_iff.mp h
  obtain ⟨hleft, hvalue⟩ := value_div hx hd hs
  obtain ⟨hright, hvalue'⟩ := value_div hy hd hs
  refine le_iff.mpr ⟨hleft, hright, ?_⟩
  rw [hvalue, hvalue']
  exact nearest_mono (EReal.div_le_div_right_of_nonneg (EReal.coe_nonneg.mpr hs.le) hle)

theorem floorScaled_eq (m e : ℤ) : floorScaled m e = ⌊(m : ℝ) * (2 : ℝ) ^ e⌋ := by
  unfold floorScaled
  split_ifs with he
  · obtain ⟨k, rfl⟩ := Int.eq_ofNat_of_zero_le he
    rw [Int.toNat_natCast, zpow_natCast]
    have hcast : (m : ℝ) * 2 ^ k = ((m * (2 ^ k : ℕ) : ℤ) : ℝ) := by push_cast; ring
    rw [hcast, Int.floor_intCast]
    rfl
  · obtain ⟨k, hk⟩ := Int.eq_ofNat_of_zero_le (show 0 ≤ -e by omega)
    obtain rfl : e = -(k : ℤ) := by omega
    have hcast : (m : ℝ) * (2 : ℝ) ^ (-(k : ℤ)) = (m : ℝ) / ((2 ^ k : ℕ) : ℝ) := by
      rw [zpow_neg, zpow_natCast]
      push_cast
      rfl
    rw [hcast, Int.floor_div_natCast, Int.floor_intCast, neg_neg, Int.toNat_natCast]
    rfl

theorem toInt_ofIntClamp (i : ℤ) :
    (Int32.ofIntClamp i).toInt = max (-2 ^ 31) (min i (2 ^ 31 - 1)) := by
  have hmin : Int32.minValue.toInt = -2 ^ 31 := rfl
  have hmax : Int32.maxValue.toInt = 2 ^ 31 - 1 := rfl
  unfold Int32.ofIntClamp
  split_ifs with hlow hhigh
  · rw [Int32.toInt_ofIntLE]
    omega
  · omega
  · omega

theorem ofIntClamp_mono {i j : ℤ} (h : i ≤ j) : Int32.ofIntClamp i ≤ Int32.ofIntClamp j := by
  rw [Int32.le_iff_toInt_le, toInt_ofIntClamp, toInt_ofIntClamp]
  omega

theorem floorInt32_of_isReal {x : Float32} {r : ℝ} (h : IsReal x r) :
    floorInt32 x = Int32.ofIntClamp ⌊r⌋ := by
  unfold floorInt32
  rcases h.denotes with ⟨s, hu, rfl⟩ | ⟨s, m, e, hm, hu, -, rfl⟩
  · rw [hu, Int.floor_zero]
    rfl
  · rw [hu]
    simp only [floorScaled_eq, apply_mul_zpow]

theorem floorInt32_mono {x y : Float32} (h : x ≤ y) : floorInt32 x ≤ floorInt32 y := by
  obtain ⟨hx, hy, hle⟩ := le_iff.mp h
  have hlow (k : Int32) : Int32.minValue ≤ k := Int32.le_iff_toInt_le.mpr k.le_toInt
  have hhigh (k : Int32) : k ≤ Int32.maxValue := Int32.le_iff_toInt_le.mpr k.toInt_le
  rcases value_cases x with hbot | htop | ⟨r, hr⟩
  · rw [floorInt32, unpack_of_value_bot hbot]
    exact hlow _
  · rw [htop, top_le_iff] at hle
    rw [floorInt32, floorInt32, unpack_of_value_top htop, unpack_of_value_top hle]
    exact Int32.le_refl _
  · rcases value_cases y with hbot | htop | ⟨s, hs⟩
    · rw [hr, hbot, le_bot_iff] at hle
      exact absurd hle (EReal.coe_ne_bot r)
    · rw [floorInt32.eq_def y, unpack_of_value_top htop]
      exact hhigh _
    · have hrs : r ≤ s := by
        rw [hr, hs] at hle
        exact EReal.coe_le_coe_iff.mp hle
      rw [floorInt32_of_isReal ⟨hx, hr⟩, floorInt32_of_isReal ⟨hy, hs⟩]
      exact ofIntClamp_mono (Int.floor_mono hrs)

end Scalar

end Broadphase
