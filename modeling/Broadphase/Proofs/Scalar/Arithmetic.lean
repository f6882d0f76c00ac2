import Mathlib
import Broadphase.Proofs.Scalar.Order

/-!
Sums and products of binary32 numbers. The arithmetic shifts significands, keeping
two bits about what is lost, and rounds once; these steps together give the real
result rounded to the grid. So a sum or product of finite numbers is the real sum
or product, rounded.
-/

namespace Broadphase

namespace Scalar

open Float.Model Float.Model.UnpackedFloat

/-- A significand with its two residual bits tells the integer part of a
magnitude and how the fraction compares with zero and one half. -/
structure Tells (em : ExtendedMantissa) (x : ℝ) : Prop where
  floor : ⌊x⌋ = em.mantissa
  roundBit : em.roundBit = true ↔ 1 / 2 ≤ Int.fract x
  stickyBit : em.stickyBit = true ↔ Int.fract x ≠ 0 ∧ Int.fract x ≠ 1 / 2

theorem tells_exact (m : ℕ) : Tells (.ofMantissaAndAccuracy m .exact) (m : ℝ) where
  floor := by simp [ExtendedMantissa.ofMantissaAndAccuracy]
  roundBit := by simp [ExtendedMantissa.ofMantissaAndAccuracy]
  stickyBit := by simp [ExtendedMantissa.ofMantissaAndAccuracy]

/-- Halving moves the last bit of the significand into the round bit and the round
bit into the sticky bit. -/
theorem Tells.shiftRightOne {em : ExtendedMantissa} {x : ℝ} (h : Tells em x) :
    Tells em.shiftRightOne (x / 2) := by
  have hsplit : x = (em.mantissa : ℝ) + Int.fract x := by
    have hx := Int.floor_add_fract x
    rw [h.floor] at hx
    exact_mod_cast hx.symm
  have hlow := Int.fract_nonneg x
  have hhigh := Int.fract_lt_one x
  obtain ⟨q, hq⟩ : ∃ q, em.mantissa / 2 = q := ⟨_, rfl⟩
  have hbit : em.mantissa % 2 = 0 ∨ em.mantissa % 2 = 1 := by omega
  have hparity : em.mantissa = 2 * q + em.mantissa % 2 := by omega
  have hcast : (em.mantissa : ℝ) = 2 * (q : ℝ) + (em.mantissa % 2 : ℕ) := by
    exact_mod_cast hparity
  have hfloor : ⌊x / 2⌋ = ((em.mantissa / 2 : ℕ) : ℤ) := by
    rw [hq, Int.floor_eq_iff, Int.cast_natCast]
    rcases hbit with hb | hb <;> rw [hb] at hcast <;> push_cast at hcast <;>
      constructor <;> linarith
  have hfract : Int.fract (x / 2) = ((em.mantissa % 2 : ℕ) + Int.fract x) / 2 := by
    rw [← Int.self_sub_floor (x / 2), hfloor, hq, Int.cast_natCast]
    linarith
  refine ⟨hfloor, ?_, ?_⟩
  · rw [hfract]
    rcases hbit with hb | hb <;> simp only [ExtendedMantissa.shiftRightOne, hb] <;>
      norm_num <;> linarith
  · have hsticky : em.shiftRightOne.stickyBit = true ↔ Int.fract x ≠ 0 := by
      simp only [ExtendedMantissa.shiftRightOne, Bool.or_eq_true, h.roundBit, h.stickyBit]
      constructor
      · rintro (hround | ⟨hzero, -⟩)
        · linarith
        · exact hzero
      · intro hzero
        by_cases hhalf : Int.fract x = 1 / 2
        · exact Or.inl hhalf.ge
        · exact Or.inr ⟨hzero, hhalf⟩
    rw [hsticky, hfract]
    rcases hbit with hb | hb <;> rw [hb] <;> push_cast
    · constructor
      · intro hzero
        exact ⟨fun h => hzero (by linarith), by linarith⟩
      · rintro ⟨hzero, -⟩ heq
        exact hzero (by rw [heq]; norm_num)
    · constructor
      · intro hzero
        exact ⟨by linarith, fun h => hzero (by linarith)⟩
      · rintro ⟨-, hhalf⟩ heq
        exact hhalf (by rw [heq]; norm_num)

theorem Tells.shiftRight {em : ExtendedMantissa} {x : ℝ} (h : Tells em x) (n : ℕ) :
    Tells (em >>> n) (x / 2 ^ n) := by
  change Tells (n.repeat ExtendedMantissa.shiftRightOne em) _
  induction n with
  | zero => simpa [Nat.repeat] using h
  | succ n ih =>
      rw [Nat.repeat, pow_succ, ← div_div]
      exact ih.shiftRightOne

/-- The residual bits decide the rounding to an integer. -/
theorem Tells.roundedMantissa {em : ExtendedMantissa} {x : ℝ} (h : Tells em x) :
    (em.roundedMantissa : ℤ) = nearestEven x := by
  obtain ⟨hfloor, hround, hsticky⟩ := h
  obtain ⟨m, r, s⟩ := em
  unfold nearestEven
  rw [hfloor]
  cases r <;> cases s <;>
    simp only [Bool.false_eq_true, false_iff, true_iff, not_le, not_and_or, not_not,
      ExtendedMantissa.roundedMantissa, ExtendedMantissa.accuracy,
      Accuracy.roundToNearestEven] at hround hsticky ⊢
  · rw [if_pos hround]
  · rw [if_pos hround]
  · have hhalf : Int.fract x = 1 / 2 := hsticky.resolve_left (by linarith)
    rw [if_neg (by linarith), if_neg (by linarith)]
    push_cast
    rfl
  · have hhalf : 1 / 2 < Int.fract x := lt_of_le_of_ne hround (Ne.symm hsticky.2)
    rw [if_neg (by linarith), if_pos hhalf]
    push_cast
    rfl

theorem log_magnitude {m : ℕ} (hm : 0 < m) (e : ℤ) :
    Int.log 2 (magnitude m e) = (m.log2 : ℤ) + e := by
  have hpositive := magnitude_pos hm e
  have hlow : (2 : ℝ) ^ m.log2 ≤ m := by
    exact_mod_cast (Nat.le_log2 hm.ne').mp le_rfl
  have hhigh : (m : ℝ) < 2 ^ (m.log2 + 1) := by
    exact_mod_cast (Nat.log2_lt hm.ne').mp (Nat.lt_succ_self _)
  apply le_antisymm
  · rw [← Int.lt_add_one_iff, ← Int.lt_zpow_iff_log_lt (by norm_num) hpositive]
    calc
      magnitude m e < 2 ^ (m.log2 + 1) * (2 : ℝ) ^ e :=
        mul_lt_mul_of_pos_right hhigh (by positivity)
      _ = ((2 : ℕ) : ℝ) ^ ((m.log2 : ℤ) + e + 1) := by
        rw [← zpow_natCast, ← zpow_add₀ (by norm_num)]
        push_cast
        congr 1
        ring
  · rw [← Int.zpow_le_iff_le_log (by norm_num) hpositive]
    calc
      ((2 : ℕ) : ℝ) ^ ((m.log2 : ℤ) + e) = 2 ^ m.log2 * (2 : ℝ) ^ e := by
        rw [zpow_add₀ (by norm_num), zpow_natCast]
        norm_num
      _ ≤ magnitude m e := mul_le_mul_of_nonneg_right hlow (by positivity)

theorem targetExponent_eq_spacing {m : ℕ} (hm : 0 < m) (e : ℤ) :
    Format.binary32.targetExponent (totalExponent m e) = spacing (magnitude m e) := by
  have hbits : Format.binary32.mantissaBits = 24 := by decide
  have hleast : Format.binary32.minExponent = -149 := by decide
  unfold Format.targetExponent totalExponent spacing
  rw [log_magnitude hm e, hbits, hleast]
  omega

/-- What a rounded result with a sign looks like for a magnitude: a zero, or a
canonical number, on the grid point of the magnitude. -/
def RoundsTo (s : Sign) (x : ℝ) (u : UnpackedFloat) : Prop :=
  (u = .zero s ∧ onGrid x = 0) ∨
    ∃ m e, ∃ hm : 0 < m, u = .finite s m e hm ∧ Canonical (.finite s m e hm) ∧
      magnitude m e = onGrid x

private theorem shiftToTargetExponent_eq {m : ℕ} {e target : ℤ} {accuracy : Accuracy}
    (h : Format.binary32.targetExponent (totalExponent m e) = target) :
    shiftToTargetExponent Format.binary32 m e accuracy =
      (ExtendedMantissa.ofMantissaAndAccuracy m accuracy >>> (target - e).toNat,
        e + ((target - e).toNat : ℤ)) := by
  subst h
  rfl

private theorem shiftRight_zero (em : ExtendedMantissa) : em >>> (0 : ℕ) = em := rfl

/-- A significand that already fits is not shifted again. -/
private theorem shift_short {n : ℕ} {t : ℤ} (hn : n < 2 ^ 24) (ht : -149 ≤ t) :
    shiftToTargetExponent Format.binary32 n t .exact = (.ofMantissaAndAccuracy n .exact, t) := by
  have hbits : Format.binary32.mantissaBits = 24 := by decide
  have hleast : Format.binary32.minExponent = -149 := by decide
  have hlog : n.log2 < 24 := by
    rcases Nat.eq_zero_or_pos n with rfl | hpositive
    · decide
    · exact (Nat.log2_lt hpositive.ne').mpr hn
  have htarget : Format.binary32.targetExponent (totalExponent n t) ≤ t := by
    unfold Format.targetExponent totalExponent
    rw [hbits, hleast]
    omega
  rw [shiftToTargetExponent_eq rfl, Int.toNat_of_nonpos (by omega), shiftRight_zero]
  simp

/-- A significand that rounding has carried to 25 bits is shifted by one. -/
private theorem shift_carry {t : ℤ} (ht : -149 ≤ t) :
    shiftToTargetExponent Format.binary32 (2 ^ 24) t .exact =
      (.ofMantissaAndAccuracy (2 ^ 23) .exact, t + 1) := by
  have htarget : Format.binary32.targetExponent (totalExponent (2 ^ 24) t) = t + 1 := by
    have hbits : Format.binary32.mantissaBits = 24 := by decide
    have hleast : Format.binary32.minExponent = -149 := by decide
    unfold Format.targetExponent totalExponent
    rw [hbits, hleast, Nat.log2_two_pow]
    omega
  rw [shiftToTargetExponent_eq htarget]
  simp only [add_sub_cancel_left, Int.toNat_one]
  rfl

/-- The integer part of a magnitude tells the exponent that rounding aims at, unless it
is taken at a coarser grid than that of the magnitude. -/
theorem targetExponent_eq_of_floor {x : ℝ} (hx : 0 < x) {m : ℕ} {e : ℤ}
    (hfloor : ⌊x / (2 : ℝ) ^ e⌋ = m) (he : e ≤ spacing x) :
    Format.binary32.targetExponent (totalExponent m e) = spacing x := by
  have hbits : Format.binary32.mantissaBits = 24 := by decide
  have hleast : Format.binary32.minExponent = -149 := by decide
  have hunit : (0 : ℝ) < (2 : ℝ) ^ e := by positivity
  obtain ⟨hlow, hhigh⟩ := Int.floor_eq_iff.mp hfloor
  rw [Int.cast_natCast, le_div_iff₀ hunit] at hlow
  rw [Int.cast_natCast, div_lt_iff₀ hunit] at hhigh
  rcases Nat.eq_zero_or_pos m with rfl | hm
  · -- what is below the unit is coarsest at the least exponent
    have hlog : Int.log 2 x < e := by
      rw [← Int.lt_zpow_iff_log_lt (by norm_num) hx]
      simpa using hhigh
    unfold Format.targetExponent totalExponent
    rw [hbits, hleast]
    unfold spacing at he ⊢
    simp only [Nat.log2_zero]
    omega
  · have hlog : Int.log 2 x = Int.log 2 (magnitude m e) := by
      refine le_antisymm ?_ (Int.log_mono_right (magnitude_pos hm e) hlow)
      rw [← Int.lt_add_one_iff, ← Int.lt_zpow_iff_log_lt (by norm_num) hx, log_magnitude hm e]
      have hbound : (m : ℝ) + 1 ≤ 2 ^ (m.log2 + 1) := by
        exact_mod_cast (Nat.log2_lt hm.ne').mp (Nat.lt_succ_self _)
      calc
        x < ((m : ℝ) + 1) * (2 : ℝ) ^ e := hhigh
        _ ≤ 2 ^ (m.log2 + 1) * (2 : ℝ) ^ e := mul_le_mul_of_nonneg_right hbound hunit.le
        _ = ((2 : ℕ) : ℝ) ^ ((m.log2 : ℤ) + e + 1) := by
          rw [← zpow_natCast, ← zpow_add₀ (by norm_num)]
          push_cast
          congr 1
          ring
    rw [targetExponent_eq_spacing hm e, spacing, spacing, hlog]

/-- Rounding a significand that tells the magnitude on a grid that is fine enough. -/
theorem roundsTo_of_tells (s : Sign) {x : ℝ} (hx : 0 < x) {m : ℕ} {e : ℤ} {accuracy : Accuracy}
    (htells : Tells (.ofMantissaAndAccuracy m accuracy) (x / (2 : ℝ) ^ e)) (he : e ≤ spacing x) :
    RoundsTo s x (roundWithAccuracy Format.binary32 s m e accuracy) := by
  obtain ⟨t, ht⟩ : ∃ t, spacing x = t := ⟨_, rfl⟩
  obtain ⟨n, hn⟩ : ∃ n, (ExtendedMantissa.ofMantissaAndAccuracy m accuracy >>>
    (t - e).toNat).roundedMantissa = n := ⟨_, rfl⟩
  have hmantissa : (ExtendedMantissa.ofMantissaAndAccuracy m accuracy).mantissa = m := by
    rcases accuracy with _ | order
    · rfl
    · cases order <;> rfl
  have hleast : -149 ≤ t := ht ▸ le_max_right _ _
  have hshift : ((t - e).toNat : ℤ) = t - e := Int.toNat_of_nonneg (by omega)
  have hsteps : x / (2 : ℝ) ^ e / 2 ^ (t - e).toNat = x / (2 : ℝ) ^ t := by
    rw [← zpow_natCast, hshift, div_div, ← zpow_add₀ (by norm_num), add_sub_cancel]
  have hrounded : (n : ℤ) = nearestEven (x / (2 : ℝ) ^ spacing x) := by
    rw [ht, ← hsteps, ← hn]
    exact (htells.shiftRight _).roundedMantissa
  have hgrid : onGrid x = magnitude n t := by
    unfold onGrid
    rw [← hrounded, ht, Int.cast_natCast]
    rfl
  have hupper : n ≤ 2 ^ 24 := by
    have h := nearestEven_div_spacing_le x
    rw [← hrounded] at h
    exact_mod_cast h
  have hlower : 2 ^ 23 ≤ n ∨ t = -149 := by
    rcases hleast.lt_or_eq with hlt | heq
    · have h := le_nearestEven_div_spacing hx (ht ▸ hlt)
      rw [← hrounded] at h
      exact Or.inl (by exact_mod_cast h)
    · exact Or.inr heq.symm
  have htarget : Format.binary32.targetExponent (totalExponent m e) = t := by
    rw [targetExponent_eq_of_floor hx (htells.floor.trans (congrArg _ hmantissa)) he, ht]
  unfold roundWithAccuracy
  rw [shiftToTargetExponent_eq htarget]
  simp only [hn, hshift, add_sub_cancel]
  rcases hupper.lt_or_eq with hlt | rfl
  · simp only [shift_short hlt hleast, ExtendedMantissa.ofMantissaAndAccuracy]
    split_ifs with hzero
    · refine Or.inl ⟨rfl, ?_⟩
      rw [hgrid, hzero]
      simp [magnitude]
    · exact Or.inr ⟨n, t, Nat.pos_of_ne_zero hzero, rfl, ⟨hlt, hleast, hlower⟩, hgrid.symm⟩
  · simp only [shift_carry hleast, ExtendedMantissa.ofMantissaAndAccuracy]
    rw [dif_neg (by norm_num)]
    refine Or.inr ⟨2 ^ 23, t + 1, by norm_num, rfl, ⟨by norm_num, by omega, Or.inl le_rfl⟩, ?_⟩
    rw [hgrid]
    unfold magnitude
    rw [zpow_add_one₀ (by norm_num)]
    push_cast
    ring

theorem roundsTo_roundWithAccuracy (s : Sign) {m : ℕ} (hm : 0 < m) {e : ℤ}
    (he : e ≤ spacing (magnitude m e)) :
    RoundsTo s (magnitude m e) (roundWithAccuracy Format.binary32 s m e .exact) := by
  refine roundsTo_of_tells s (magnitude_pos hm e) ?_ he
  rw [magnitude, mul_div_cancel_right₀ _ (by positivity)]
  exact tells_exact m

def signed (s : Sign) (x : ℝ) : ℝ :=
  match s with
  | .positive => x
  | .negative => -x

theorem decoded_finite (s : Sign) (m : ℕ) (e : ℤ) (hm : 0 < m) :
    decoded (.finite s m e hm) = (signed s (magnitude m e) : EReal) := by
  cases s <;> rfl

theorem rounded_signed_of_clip (s : Sign) {x : ℝ} (hx : 0 ≤ x) :
    rounded (signed s x) = if s == .positive then clip (onGrid x) else -clip (onGrid x) := by
  cases s with
  | positive => exact rounded_of_nonneg hx
  | negative =>
      change rounded (-x) = -clip (onGrid x)
      rw [rounded_neg, rounded_of_nonneg hx]

/-- The stored result of an operation is a number, and its value is a real number
rounded. -/
def Stores (u : UnpackedFloat) (x : ℝ) : Prop :=
  (unpack Format.binary32 (pack Format.binary32 u)).isNaN = false ∧
    decoded (unpack Format.binary32 (pack Format.binary32 u)) = rounded x

theorem stores_zero (s : Sign) : Stores (.zero s) 0 := by
  have hunpack : unpack Format.binary32 (pack Format.binary32 (.zero s)) = .zero s :=
    unpack_packedZero s
  unfold Stores
  rw [hunpack, rounded_of_nonneg le_rfl, onGrid_zero, clip_of_lt (by norm_num)]
  exact ⟨rfl, rfl⟩

theorem magnitude_lt_of_short {m : ℕ} {e : ℤ} (hm : m < 2 ^ 24) (he : e ≤ 104) :
    magnitude m e < 2 ^ 128 := by
  have hshort : (m : ℝ) < 2 ^ 24 := by exact_mod_cast hm
  calc
    magnitude m e < 2 ^ 24 * (2 : ℝ) ^ e := mul_lt_mul_of_pos_right hshort (by positivity)
    _ ≤ 2 ^ 24 * (2 : ℝ) ^ (104 : ℤ) :=
      mul_le_mul_of_nonneg_left (zpow_le_zpow_right₀ (by norm_num) he) (by positivity)
    _ = 2 ^ 128 := by norm_num

/-- Storing a rounded result overflows exactly where the grid point is clipped. -/
theorem RoundsTo.stores {s : Sign} {x : ℝ} {u : UnpackedFloat} (h : RoundsTo s x u)
    (hx : 0 ≤ x) : Stores u (signed s x) := by
  rcases h with ⟨rfl, hzero⟩ | ⟨m, e, hm, rfl, hcanonical, hgrid⟩
  · obtain ⟨hnumber, hvalue⟩ := stores_zero s
    refine ⟨hnumber, ?_⟩
    rw [hvalue, rounded_signed_of_clip s hx, rounded_of_nonneg le_rfl, hzero, onGrid_zero,
      clip_of_lt (by norm_num)]
    cases s <;> simp
  · unfold Stores
    rw [rounded_signed_of_clip s hx, ← hgrid]
    by_cases hrange : e ≤ 104
    · have hsmall : magnitude m e < 2 ^ 128 := magnitude_lt_of_short hcanonical.1 hrange
      rw [unpack_pack_finite s m e hm hcanonical hrange, clip_of_lt hsmall]
      exact ⟨rfl, by cases s <;> rfl⟩
    · have hlarge : 2 ^ 128 ≤ magnitude m e := by
        have hlong : (2 : ℝ) ^ 23 ≤ m := by
          exact_mod_cast hcanonical.2.2.resolve_right (by omega)
        calc
          (2 : ℝ) ^ 128 = 2 ^ 23 * (2 : ℝ) ^ (105 : ℤ) := by norm_num
          _ ≤ 2 ^ 23 * (2 : ℝ) ^ e :=
            mul_le_mul_of_nonneg_left (zpow_le_zpow_right₀ (by norm_num) (by omega))
              (by positivity)
          _ ≤ magnitude m e := mul_le_mul_of_nonneg_right hlong (by positivity)
      rw [unpack_pack_overflow s m e hm (by omega)]
      refine ⟨rfl, ?_⟩
      rw [clip, if_pos hlarge]
      cases s <;> simp [decoded]

theorem magnitude_decreaseExponent (m : ℕ) (e target : ℤ) :
    magnitude (decreaseExponent m e target).1 (decreaseExponent m e target).2 =
      magnitude m e := by
  unfold decreaseExponent magnitude
  dsimp only
  rw [Nat.shiftLeft_eq, zpow_sub₀ (by norm_num), zpow_natCast]
  push_cast
  field_simp

theorem decreaseExponent_pos {m : ℕ} (hm : 0 < m) (e target : ℤ) :
    0 < (decreaseExponent m e target).1 := by
  unfold decreaseExponent
  dsimp only
  rw [Nat.shiftLeft_eq]
  positivity

theorem stores_round (s : Sign) {m : ℕ} (hm : 0 < m) (e : ℤ) :
    Stores (UnpackedFloat.round Format.binary32 s m e) (signed s (magnitude m e)) := by
  have hvalue := magnitude_decreaseExponent m e
    (Format.binary32.targetExponent (totalExponent m e))
  have hpositive := decreaseExponent_pos hm e
    (Format.binary32.targetExponent (totalExponent m e))
  have hlow : (decreaseExponent m e (Format.binary32.targetExponent (totalExponent m e))).2 ≤
      spacing (magnitude m e) := by
    rw [← targetExponent_eq_spacing hm]
    unfold decreaseExponent
    dsimp only
    omega
  have hrounds := roundsTo_roundWithAccuracy s hpositive (hvalue.symm ▸ hlow)
  rw [hvalue] at hrounds
  exact hrounds.stores (magnitude_pos hm e).le

theorem stores_normalize (n : ℤ) (e : ℤ) (zeroSign : Sign) :
    Stores (UnpackedFloat.normalize Format.binary32 n e zeroSign) ((n : ℝ) * (2 : ℝ) ^ e) := by
  unfold UnpackedFloat.normalize
  rcases lt_trichotomy n 0 with h | rfl | h
  · obtain ⟨m, rfl⟩ := Int.exists_eq_neg_ofNat h.le
    have hm : 0 < m := by omega
    rw [compare_lt_iff_lt.mpr h]
    have hstores := stores_round .negative hm e
    simpa [signed, magnitude] using hstores
  · simpa using stores_zero zeroSign
  · obtain ⟨m, rfl⟩ := Int.eq_ofNat_of_zero_le h.le
    have hm : 0 < m := by omega
    rw [compare_gt_iff_gt.mpr h]
    have hstores := stores_round .positive hm e
    simpa [signed, magnitude] using hstores

/-- A binary32 number with a real value. -/
structure IsReal (x : Float32) (r : ℝ) : Prop where
  isNumber : IsNumber x
  value_eq : value x = r

theorem isReal_of_isFinite {x : Float32} (h : x.isFinite = true) : ∃ r, IsReal x r := by
  obtain ⟨hnumber, r, hr⟩ := value_of_isFinite h
  exact ⟨r, hnumber, hr⟩

theorem IsReal.cases {x : Float32} {r : ℝ} (h : IsReal x r) :
    (∃ s, x.toModel.unpack = .zero s ∧ r = 0) ∨
      ∃ s m e, ∃ hm : 0 < m, x.toModel.unpack = .finite s m e hm ∧
        Canonical (.finite s m e hm) ∧ e ≤ 104 ∧ r = signed s (magnitude m e) := by
  obtain ⟨hnumber, hvalue⟩ := h
  obtain ⟨hcanonical, hrange⟩ := unpack_canonical x.toModel.toBits.toBitVec
  change x.toModel.unpack.isNaN = false at hnumber
  change decoded x.toModel.unpack = r at hvalue
  change Canonical x.toModel.unpack at hcanonical
  change InRange x.toModel.unpack at hrange
  cases hx : x.toModel.unpack with
  | notANumber => simp [hx, UnpackedFloat.isNaN] at hnumber
  | infinity s => cases s <;> simp [hx, decoded] at hvalue
  | zero s =>
      rw [hx] at hvalue
      exact Or.inl ⟨s, rfl, EReal.coe_eq_zero.mp hvalue.symm⟩
  | finite s m e hm =>
      rw [hx] at hvalue hcanonical hrange
      rw [decoded_finite] at hvalue
      exact Or.inr ⟨s, m, e, hm, rfl, hcanonical, hrange, (EReal.coe_injective hvalue).symm⟩

theorem IsReal.rounded_eq {x : Float32} {r : ℝ} (h : IsReal x r) : rounded r = r := by
  rcases h.cases with ⟨s, -, rfl⟩ | ⟨s, m, e, hm, -, hcanonical, hrange, rfl⟩
  · rw [rounded_of_nonneg le_rfl, onGrid_zero, clip_of_lt (by norm_num)]
  · have hgrid : onGrid (magnitude m e) = magnitude m e :=
      onGrid_of_short m e hcanonical.1 hcanonical.2.1
    have hsmall : magnitude m e < 2 ^ 128 := magnitude_lt_of_short hcanonical.1 hrange
    rw [rounded_signed_of_clip s (magnitude_pos hm e).le, hgrid, clip_of_lt hsmall]
    cases s <;> rfl

private theorem stores_finite (s : Sign) {m : ℕ} {e : ℤ} {hm : 0 < m}
    (hcanonical : Canonical (.finite s m e hm)) :
    Stores (.finite s m e hm) (signed s (magnitude m e)) :=
  RoundsTo.stores
    (Or.inr ⟨m, e, hm, rfl, hcanonical, (onGrid_of_short m e hcanonical.1 hcanonical.2.1).symm⟩)
    (magnitude_pos hm e).le

theorem apply_mul_zpow (s : Sign) (m : ℕ) (e : ℤ) :
    ((s.apply m : ℤ) : ℝ) * (2 : ℝ) ^ e = signed s (magnitude m e) := by
  cases s <;> simp [Sign.apply, signed, magnitude]

/-- Brought to an exponent that is not above its own, a number keeps its value. -/
private theorem aligned_value (s : Sign) (m : ℕ) {e target : ℤ} (h : target ≤ e) :
    ((s.apply (decreaseExponent m e target).1 : ℤ) : ℝ) * (2 : ℝ) ^ target =
      signed s (magnitude m e) := by
  have hexponent : (decreaseExponent m e target).2 = target := by
    unfold decreaseExponent
    dsimp only
    omega
  have hvalue := magnitude_decreaseExponent m e target
  rw [hexponent] at hvalue
  rw [apply_mul_zpow, hvalue]

/-- A canonical number with a real value. -/
def Denotes (u : UnpackedFloat) (r : ℝ) : Prop :=
  (∃ s, u = .zero s ∧ r = 0) ∨
    ∃ s m e, ∃ hm : 0 < m, u = .finite s m e hm ∧ Canonical (.finite s m e hm) ∧
      r = signed s (magnitude m e)

theorem IsReal.denotes {x : Float32} {r : ℝ} (h : IsReal x r) : Denotes x.toModel.unpack r := by
  rcases h.cases with hzero | ⟨s, m, e, hm, hu, hcanonical, -, hr⟩
  · exact Or.inl hzero
  · exact Or.inr ⟨s, m, e, hm, hu, hcanonical, hr⟩

theorem Denotes.neg {u : UnpackedFloat} {r : ℝ} (h : Denotes u r) : Denotes u.neg (-r) := by
  rcases h with ⟨s, rfl, rfl⟩ | ⟨s, m, e, hm, rfl, hcanonical, rfl⟩
  · exact Or.inl ⟨-s, rfl, neg_zero⟩
  · refine Or.inr ⟨-s, m, e, hm, rfl, hcanonical, ?_⟩
    cases s <;> simp [signed]

theorem Denotes.stores {u : UnpackedFloat} {r : ℝ} (h : Denotes u r) : Stores u r := by
  rcases h with ⟨s, rfl, rfl⟩ | ⟨s, m, e, hm, rfl, hcanonical, rfl⟩
  · exact stores_zero s
  · exact stores_finite s hcanonical

/-- The opposite of a finite number is not rounded. -/
theorem IsReal.neg {a : Float32} {r : ℝ} (ha : IsReal a r) : IsReal (-a) (-r) := by
  obtain ⟨hnumber, hvalue⟩ : Stores a.toModel.unpack.neg (-r) := ha.denotes.neg.stores
  refine ⟨hnumber, hvalue.trans ?_⟩
  rw [rounded_neg, ha.rounded_eq, EReal.coe_neg]

theorem Denotes.stores_add {u v : UnpackedFloat} {r s : ℝ} (hu : Denotes u r) (hv : Denotes v s) :
    Stores (UnpackedFloat.add Format.binary32 u v) (r + s) := by
  rcases hu with ⟨sa, rfl, rfl⟩ | ⟨sa, ma, ea, hma, rfl, hca, rfl⟩ <;>
    rcases hv with ⟨sb, rfl, rfl⟩ | ⟨sb, mb, eb, hmb, rfl, hcb, rfl⟩
  · simp only [UnpackedFloat.add, add_zero]
    split_ifs
    · exact stores_zero sa
    · exact stores_zero .positive
  · rw [zero_add]
    exact stores_finite sb hcb
  · rw [add_zero]
    exact stores_finite sa hca
  · have hsum := stores_normalize
      (sa.apply (decreaseExponent ma ea (min ea eb)).1 +
        sb.apply (decreaseExponent mb eb (min ea eb)).1) (min ea eb) .positive
    rw [Int.cast_add, add_mul, aligned_value sa ma (min_le_left ea eb),
      aligned_value sb mb (min_le_right ea eb)] at hsum
    exact hsum

/-- The sum of two finite numbers is the real sum, rounded. -/
theorem IsReal.add {a b : Float32} {r s : ℝ} (ha : IsReal a r) (hb : IsReal b s) :
    IsNumber (a + b) ∧ value (a + b) = rounded (r + s) :=
  ha.denotes.stores_add hb.denotes

theorem subtract_eq_add_neg (u v : UnpackedFloat) :
    UnpackedFloat.sub Format.binary32 u v = UnpackedFloat.add Format.binary32 u v.neg := by
  have happly (s : Sign) (m : ℕ) : (-s).apply m = -s.apply m := by
    cases s
    · exact (neg_neg (m : ℤ)).symm
    · rfl
  cases u <;> cases v <;> try rfl
  simp only [UnpackedFloat.sub, UnpackedFloat.add, UnpackedFloat.neg, happly, Int.sub_eq_add_neg]

/-- The difference of two finite numbers is the real difference, rounded. -/
theorem IsReal.sub {a b : Float32} {r s : ℝ} (ha : IsReal a r) (hb : IsReal b s) :
    IsNumber (a - b) ∧ value (a - b) = rounded (r - s) := by
  change Stores (UnpackedFloat.sub Format.binary32 a.toModel.unpack b.toModel.unpack) (r - s)
  rw [subtract_eq_add_neg, sub_eq_add_neg]
  exact ha.denotes.stores_add hb.denotes.neg

/-- The product of canonical significands is not coarser than its grid. -/
private theorem product_le_spacing {s t : Sign} {m n : ℕ} {e f : ℤ} {hm : 0 < m} {hn : 0 < n}
    (hx : Canonical (.finite s m e hm)) (hy : Canonical (.finite t n f hn)) :
    e + f ≤ spacing (magnitude (m * n) (e + f)) := by
  have hproduct : 0 < m * n := Nat.mul_pos hm hn
  unfold spacing
  rw [log_magnitude hproduct]
  have hlong : 2 ^ 23 ≤ m * n → 23 ≤ (m * n).log2 := (Nat.le_log2 hproduct.ne').mpr
  rcases hx.2.2 with hleft | hleft
  · have hlog := hlong (hleft.trans (Nat.le_mul_of_pos_right m hn))
    omega
  · rcases hy.2.2 with hright | hright
    · have hlog := hlong (hright.trans (Nat.le_mul_of_pos_left n hm))
      omega
    · omega

private theorem signed_mul (s t : Sign) (x y : ℝ) :
    signed (s * t) (x * y) = signed s x * signed t y := by
  cases s <;> cases t <;> simp only [signed] <;> ring_nf

/-- The product of two finite numbers is the real product, rounded. -/
theorem IsReal.mul {a b : Float32} {r s : ℝ} (ha : IsReal a r) (hb : IsReal b s) :
    IsNumber (a * b) ∧ value (a * b) = rounded (r * s) := by
  change Stores (UnpackedFloat.mul Format.binary32 a.toModel.unpack b.toModel.unpack) (r * s)
  rcases ha.cases with ⟨sa, hua, rfl⟩ | ⟨sa, ma, ea, hma, hua, hca, -, rfl⟩ <;>
    rcases hb.cases with ⟨sb, hub, rfl⟩ | ⟨sb, mb, eb, hmb, hub, hcb, -, rfl⟩ <;>
    rw [hua, hub]
  · rw [zero_mul]
    exact stores_zero _
  · rw [zero_mul]
    exact stores_zero _
  · rw [mul_zero]
    exact stores_zero _
  · have hproduct : magnitude (ma * mb) (ea + eb) = magnitude ma ea * magnitude mb eb := by
      unfold magnitude
      rw [zpow_add₀ (by norm_num)]
      push_cast
      ring
    have hrounds := roundsTo_roundWithAccuracy (sa * sb) (Nat.mul_pos hma hmb)
      (product_le_spacing hca hcb)
    have hstores := hrounds.stores (magnitude_pos (Nat.mul_pos hma hmb) _).le
    rw [hproduct, signed_mul] at hstores
    exact hstores

end Scalar

end Broadphase
