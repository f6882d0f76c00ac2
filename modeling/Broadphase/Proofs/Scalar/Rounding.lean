import Mathlib

/-!
Rounding of real numbers to binary32. A magnitude is rounded to the nearest
point of a grid whose spacing grows with the magnitude and never falls below
`2 ^ (-149)`; a magnitude of `2 ^ 128` or more is infinite. The main statements
are that rounding keeps order and that it leaves every number with a significand
of at most 24 bits as it is. Half of the greatest finite number, which is such a
number, separates the numbers that can be doubled from those that cannot.
-/

namespace Broadphase

namespace Scalar

noncomputable def magnitude (m : ℕ) (e : ℤ) : ℝ := (m : ℝ) * (2 : ℝ) ^ e

/-- The multiple of `2 ^ q` with a coefficient of either sign. -/
noncomputable def latticePoint (q i : ℤ) : ℝ := (i : ℝ) * (2 : ℝ) ^ q

theorem magnitude_pos {m : ℕ} (hm : 0 < m) (e : ℤ) : 0 < magnitude m e := by
  unfold magnitude
  positivity

/-- The integer nearest to a real number, the even one of two equally near. -/
noncomputable def nearestEven (x : ℝ) : ℤ :=
  if Int.fract x < 1 / 2 then ⌊x⌋
  else if 1 / 2 < Int.fract x then ⌊x⌋ + 1
  else ⌊x⌋ + ⌊x⌋ % 2

theorem floor_le_nearestEven (x : ℝ) : ⌊x⌋ ≤ nearestEven x := by
  unfold nearestEven
  split_ifs <;> omega

theorem nearestEven_le_floor_add_one (x : ℝ) : nearestEven x ≤ ⌊x⌋ + 1 := by
  unfold nearestEven
  split_ifs <;> omega

/-- Rounding to integers keeps order. Between two neighbouring integers the
fractions decide, otherwise the integer parts do. -/
theorem nearestEven_mono {x y : ℝ} (h : x ≤ y) : nearestEven x ≤ nearestEven y := by
  have hfloor : ⌊x⌋ ≤ ⌊y⌋ := Int.floor_mono h
  rcases hfloor.lt_or_eq with hlt | heq
  · have hx := nearestEven_le_floor_add_one x
    have hy := floor_le_nearestEven y
    omega
  · have hfract : Int.fract x ≤ Int.fract y := by
      rw [← Int.self_sub_floor, ← Int.self_sub_floor, heq]
      linarith
    unfold nearestEven
    rw [heq]
    split_ifs <;> first | omega | linarith

@[simp]
theorem nearestEven_intCast (n : ℤ) : nearestEven (n : ℝ) = n := by
  simp [nearestEven]

/-- The exponent of the grid spacing at a magnitude. -/
noncomputable def spacing (x : ℝ) : ℤ := max (Int.log 2 x - 23) (-149)

theorem spacing_mono {x y : ℝ} (hx : 0 < x) (h : x ≤ y) : spacing x ≤ spacing y := by
  have hlog : Int.log 2 x ≤ Int.log 2 y := Int.log_mono_right hx h
  unfold spacing
  omega

/-- The grid point nearest to a magnitude. -/
noncomputable def onGrid (x : ℝ) : ℝ :=
  nearestEven (x / (2 : ℝ) ^ spacing x) * (2 : ℝ) ^ spacing x

@[simp]
theorem onGrid_zero : onGrid 0 = 0 := by
  have hzero : nearestEven (0 : ℝ) = 0 := by
    simpa using nearestEven_intCast 0
  simp [onGrid, hzero]

theorem onGrid_nonneg {x : ℝ} (hx : 0 ≤ x) : 0 ≤ onGrid x := by
  have hquotient : (0 : ℝ) ≤ x / (2 : ℝ) ^ spacing x := by positivity
  have hinteger : nearestEven ((0 : ℤ) : ℝ) ≤ nearestEven (x / (2 : ℝ) ^ spacing x) :=
    nearestEven_mono (by simpa using hquotient)
  rw [nearestEven_intCast] at hinteger
  have hcast : (0 : ℝ) ≤ nearestEven (x / (2 : ℝ) ^ spacing x) := by
    exact_mod_cast hinteger
  unfold onGrid
  positivity

theorem div_spacing_lt (x : ℝ) : x / (2 : ℝ) ^ spacing x < 2 ^ 24 := by
  rw [div_lt_iff₀ (by positivity)]
  have hlog : x < (2 : ℝ) ^ (Int.log 2 x + 1) := by
    simpa using Int.lt_zpow_succ_log_self (b := 2) (by norm_num) x
  have hexponent : Int.log 2 x + 1 ≤ 24 + spacing x := by
    unfold spacing
    omega
  calc
    x < (2 : ℝ) ^ (Int.log 2 x + 1) := hlog
    _ ≤ (2 : ℝ) ^ (24 + spacing x) := zpow_le_zpow_right₀ (by norm_num) hexponent
    _ = 2 ^ 24 * (2 : ℝ) ^ spacing x := by
      rw [zpow_add₀ (by norm_num)]
      norm_num

theorem le_div_spacing {x : ℝ} (hx : 0 < x) (hspacing : -149 < spacing x) :
    2 ^ 23 ≤ x / (2 : ℝ) ^ spacing x := by
  rw [le_div_iff₀ (by positivity)]
  have hlog : (2 : ℝ) ^ Int.log 2 x ≤ x := by
    simpa using Int.zpow_log_le_self (b := 2) (by norm_num) hx
  have hexponent : Int.log 2 x = 23 + spacing x := by
    unfold spacing at hspacing ⊢
    omega
  calc
    (2 : ℝ) ^ 23 * (2 : ℝ) ^ spacing x = (2 : ℝ) ^ (23 + spacing x) := by
      rw [zpow_add₀ (by norm_num)]
      norm_num
    _ = (2 : ℝ) ^ Int.log 2 x := by rw [hexponent]
    _ ≤ x := hlog

theorem nearestEven_div_spacing_le (x : ℝ) :
    nearestEven (x / (2 : ℝ) ^ spacing x) ≤ 2 ^ 24 := by
  have h : nearestEven (x / (2 : ℝ) ^ spacing x) ≤ nearestEven (((2 ^ 24 : ℤ) : ℝ)) :=
    nearestEven_mono (by
      have hlt := div_spacing_lt x
      push_cast
      linarith)
  rwa [nearestEven_intCast] at h

theorem le_nearestEven_div_spacing {x : ℝ} (hx : 0 < x) (hspacing : -149 < spacing x) :
    2 ^ 23 ≤ nearestEven (x / (2 : ℝ) ^ spacing x) := by
  have h : nearestEven (((2 ^ 23 : ℤ) : ℝ)) ≤ nearestEven (x / (2 : ℝ) ^ spacing x) :=
    nearestEven_mono (by
      have hle := le_div_spacing hx hspacing
      push_cast
      linarith)
  rwa [nearestEven_intCast] at h

/-- Rounding magnitudes to the grid keeps order. With equal spacing this is the
order of integers; otherwise the power of two between the spacings separates the
results. -/
theorem onGrid_mono {x y : ℝ} (hx : 0 ≤ x) (h : x ≤ y) : onGrid x ≤ onGrid y := by
  rcases hx.lt_or_eq with hpositive | hzero
  · have hspacing := spacing_mono hpositive h
    rcases hspacing.lt_or_eq with hlt | heq
    · have hfloor : (-149 : ℤ) ≤ spacing x := le_max_right _ _
      have hlow : ((nearestEven (x / (2 : ℝ) ^ spacing x) : ℤ) : ℝ) ≤ 2 ^ 24 := by
        exact_mod_cast nearestEven_div_spacing_le x
      have hhigh : (2 ^ 23 : ℝ) ≤ nearestEven (y / (2 : ℝ) ^ spacing y) := by
        exact_mod_cast le_nearestEven_div_spacing (hpositive.trans_le h) (hfloor.trans_lt hlt)
      calc
        onGrid x ≤ 2 ^ 24 * (2 : ℝ) ^ spacing x :=
          mul_le_mul_of_nonneg_right hlow (by positivity)
        _ = 2 ^ 23 * (2 : ℝ) ^ (spacing x + 1) := by
          rw [zpow_add_one₀ (by norm_num)]
          ring
        _ ≤ 2 ^ 23 * (2 : ℝ) ^ spacing y :=
          mul_le_mul_of_nonneg_left (zpow_le_zpow_right₀ (by norm_num) (by omega))
            (by positivity)
        _ ≤ onGrid y := mul_le_mul_of_nonneg_right hhigh (by positivity)
    · have hinteger : nearestEven (x / (2 : ℝ) ^ spacing y) ≤
          nearestEven (y / (2 : ℝ) ^ spacing y) :=
        nearestEven_mono (div_le_div_of_nonneg_right h (by positivity))
      unfold onGrid
      rw [heq]
      exact mul_le_mul_of_nonneg_right (by exact_mod_cast hinteger) (by positivity)
  · rw [← hzero, onGrid_zero]
    exact onGrid_nonneg (hx.trans h)

theorem onGrid_of_short (m : ℕ) (e : ℤ) (hm : m < 2 ^ 24) (he : -149 ≤ e) :
    onGrid ((m : ℝ) * (2 : ℝ) ^ e) = (m : ℝ) * (2 : ℝ) ^ e := by
  rcases Nat.eq_zero_or_pos m with hzero | hpositive
  · simp [hzero]
  · have hx : (0 : ℝ) < (m : ℝ) * (2 : ℝ) ^ e := by positivity
    have hlog : Int.log 2 ((m : ℝ) * (2 : ℝ) ^ e) < 24 + e := by
      rw [← Int.lt_zpow_iff_log_lt (by norm_num) hx]
      have hcast : (m : ℝ) < 2 ^ 24 := by exact_mod_cast hm
      calc
        (m : ℝ) * (2 : ℝ) ^ e < 2 ^ 24 * (2 : ℝ) ^ e :=
          mul_lt_mul_of_pos_right hcast (by positivity)
        _ = ((2 : ℕ) : ℝ) ^ (24 + e) := by
          push_cast
          rw [zpow_add₀ (by norm_num)]
          norm_num
    have hspacing : spacing ((m : ℝ) * (2 : ℝ) ^ e) ≤ e := by
      unfold spacing
      omega
    obtain ⟨k, hk⟩ := Int.eq_ofNat_of_zero_le (sub_nonneg.mpr hspacing)
    have hsteps : (m : ℝ) * (2 : ℝ) ^ e / (2 : ℝ) ^ spacing ((m : ℝ) * (2 : ℝ) ^ e) =
        (((m : ℤ) * 2 ^ k : ℤ) : ℝ) := by
      rw [mul_div_assoc, ← zpow_sub₀ (by norm_num), hk, zpow_natCast]
      push_cast
      ring
    unfold onGrid
    rw [hsteps, nearestEven_intCast, ← hsteps, div_mul_cancel₀ _ (by positivity)]

/-- A magnitude, or infinity from `2 ^ 128` on. -/
noncomputable def clip (x : ℝ) : EReal := if 2 ^ 128 ≤ x then ⊤ else (x : EReal)

theorem clip_mono {x y : ℝ} (h : x ≤ y) : clip x ≤ clip y := by
  unfold clip
  split_ifs with hx hy
  · exact le_refl _
  · exact absurd (hx.trans h) hy
  · exact le_top
  · exact EReal.coe_le_coe_iff.mpr h

theorem clip_of_lt {x : ℝ} (h : x < 2 ^ 128) : clip x = (x : EReal) := if_neg (not_le.mpr h)

theorem clip_nonneg {x : ℝ} (hx : 0 ≤ x) : 0 ≤ clip x := by
  have h := clip_mono hx
  rwa [clip_of_lt (by positivity), EReal.coe_zero] at h

/-- A real number rounded to binary32, sign and magnitude apart. -/
noncomputable def rounded (x : ℝ) : EReal :=
  if x < 0 then -clip (onGrid (-x)) else clip (onGrid x)

theorem rounded_of_nonneg {x : ℝ} (hx : 0 ≤ x) : rounded x = clip (onGrid x) :=
  if_neg (not_lt.mpr hx)

theorem rounded_neg (x : ℝ) : rounded (-x) = -rounded x := by
  rcases lt_trichotomy x 0 with hx | hx | hx
  · simp [rounded, hx, not_lt.mpr hx.le]
  · simp [rounded, hx, clip_of_lt]
  · simp [rounded, hx, not_lt.mpr hx.le]

theorem rounded_nonneg {x : ℝ} (hx : 0 ≤ x) : 0 ≤ rounded x := by
  rw [rounded_of_nonneg hx]
  exact clip_nonneg (onGrid_nonneg hx)

theorem rounded_mono {x y : ℝ} (h : x ≤ y) : rounded x ≤ rounded y := by
  rcases lt_or_ge x 0 with hx | hx
  · have hneg : rounded x = -rounded (-x) := by rw [rounded_neg, neg_neg]
    rcases lt_or_ge y 0 with hy | hy
    · rw [hneg, ← neg_neg y, rounded_neg (-y), EReal.neg_le_neg_iff,
        rounded_of_nonneg (by linarith), rounded_of_nonneg (by linarith)]
      exact clip_mono (onGrid_mono (by linarith) (by linarith))
    · rw [hneg]
      exact (EReal.neg_le.mpr (by simpa using rounded_nonneg (by linarith))).trans
        (rounded_nonneg hy)
  · rw [rounded_of_nonneg hx, rounded_of_nonneg (hx.trans h)]
    exact clip_mono (onGrid_mono hx h)

/-- Half of the greatest finite number. -/
noncomputable def halfMax : ℝ := (2 ^ 24 - 1) * 2 ^ 103

theorem halfMax_pos : 0 < halfMax := by
  unfold halfMax
  norm_num

theorem rounded_halfMax : rounded halfMax = halfMax := by
  have hgrid : onGrid halfMax = halfMax := by
    have h := onGrid_of_short (2 ^ 24 - 1) 103 (by norm_num) (by norm_num)
    have hcast : (((2 ^ 24 - 1 : ℕ) : ℝ) * (2 : ℝ) ^ (103 : ℤ)) = halfMax := by
      unfold halfMax
      norm_num
    rwa [hcast] at h
  rw [rounded_of_nonneg halfMax_pos.le, hgrid, clip_of_lt (by unfold halfMax; norm_num)]

/-- The value of half a number: infinities stay, and the rest is rounded. -/
noncomputable def halve (x : EReal) : EReal :=
  if x = ⊥ ∨ x = ⊤ then x else rounded (x.toReal * (1 / 2))

@[simp]
theorem halve_bot : halve ⊥ = ⊥ := if_pos (Or.inl rfl)

@[simp]
theorem halve_top : halve ⊤ = ⊤ := if_pos (Or.inr rfl)

@[simp]
theorem halve_coe (r : ℝ) : halve r = rounded (r * (1 / 2)) := by
  simp [halve]

theorem halve_mono {x y : EReal} (h : x ≤ y) : halve x ≤ halve y := by
  induction x with
  | bot => simp
  | top => simp [top_le_iff.mp h]
  | coe r =>
      induction y with
      | bot => exact absurd (le_bot_iff.mp h) (EReal.coe_ne_bot r)
      | top => simp
      | coe s =>
          have hrs : r ≤ s := EReal.coe_le_coe_iff.mp h
          rw [halve_coe, halve_coe]
          exact rounded_mono (by linarith)

end Scalar

end Broadphase
