import Mathlib
import Broadphase.Proofs.Scalar.Extended

/-!
Midpoints of intervals as the tree computes them. The midpoint lies between the
ends if both are at most half of the greatest finite number in magnitude. For
other finite ends the sum may overflow; then the midpoint is infinite and outside of the
interval, and so are all further midpoints of the half that it leaves unbounded. `Tame` is the
invariant that intervals keep under halving from any finite interval.
-/

namespace Broadphase

namespace Scalar

open Float.Model Float.Model.UnpackedFloat

def midpoint (lo hi : Float32) : Float32 := (lo + hi) * 0.5

theorem isReal_half : IsReal 0.5 (1 / 2) where
  isNumber := rfl
  value_eq := by
    have hunpack : (0.5 : Float32).toModel.unpack =
        .finite .positive (2 ^ 23) (-24) (by norm_num) := rfl
    unfold value
    rw [hunpack, decoded_finite]
    norm_num [signed, magnitude]

private theorem abs_signed_magnitude (s : Sign) {m : ℕ} (hm : 0 < m) (e : ℤ) :
    |signed s (magnitude m e)| = magnitude m e := by
  cases s with
  | positive => exact abs_of_pos (magnitude_pos hm e)
  | negative => exact (abs_neg _).trans (abs_of_pos (magnitude_pos hm e))

theorem IsReal.exists_magnitude {x : Float32} {r : ℝ} (h : IsReal x r) :
    ∃ m e, |r| = magnitude m e ∧ m < 2 ^ 24 ∧ -149 ≤ e ∧ e ≤ 104 ∧ (2 ^ 23 ≤ m ∨ e = -149) := by
  rcases h.cases with ⟨s, -, rfl⟩ | ⟨s, m, e, hm, -, hcanonical, hrange, rfl⟩
  · exact ⟨0, -149, by simp [magnitude], by norm_num, le_rfl, by norm_num, Or.inr rfl⟩
  · exact ⟨m, e, abs_signed_magnitude s hm e, hcanonical.1, hcanonical.2.1, hrange,
      hcanonical.2.2⟩

private theorem magnitude_le_of_exponent_le {m : ℕ} {e f : ℤ} (hm : m < 2 ^ 24) (he : e ≤ f) :
    magnitude m e ≤ (2 ^ 24 - 1) * (2 : ℝ) ^ f := by
  have hshort : (m : ℝ) ≤ 2 ^ 24 - 1 := by
    have hcast : (m : ℝ) + 1 ≤ 2 ^ 24 := by exact_mod_cast hm
    linarith
  calc
    magnitude m e ≤ (2 ^ 24 - 1) * (2 : ℝ) ^ e := mul_le_mul_of_nonneg_right hshort (by positivity)
    _ ≤ (2 ^ 24 - 1) * (2 : ℝ) ^ f :=
      mul_le_mul_of_nonneg_left (zpow_le_zpow_right₀ (by norm_num) he) (by norm_num)

/-- No finite number is more than twice `halfMax` in magnitude. -/
theorem IsReal.abs_le_max {x : Float32} {r : ℝ} (h : IsReal x r) : |r| ≤ 2 * halfMax := by
  obtain ⟨m, e, habs, hshort, -, hrange, -⟩ := h.exists_magnitude
  rw [habs]
  calc
    magnitude m e ≤ (2 ^ 24 - 1) * (2 : ℝ) ^ (104 : ℤ) := magnitude_le_of_exponent_le hshort hrange
    _ = 2 * halfMax := by
      unfold halfMax
      norm_num

private theorem two_mul_magnitude (m : ℕ) (e : ℤ) : 2 * magnitude m e = magnitude m (e + 1) := by
  unfold magnitude
  rw [zpow_add_one₀ (by norm_num)]
  ring

private theorem onGrid_double {m : ℕ} {e : ℤ} (hm : m < 2 ^ 24) (he : -149 ≤ e) :
    onGrid (2 * magnitude m e) = 2 * magnitude m e := by
  rw [two_mul_magnitude]
  exact onGrid_of_short m (e + 1) hm (by omega)

private theorem rounded_two_mul_of_abs {r : ℝ} {y : EReal} (h : rounded (2 * |r|) = y) :
    rounded (2 * r) = if r < 0 then -y else y := by
  split_ifs with hr
  · rw [abs_of_neg hr, mul_neg, rounded_neg] at h
    rw [← h, neg_neg]
  · rwa [abs_of_nonneg (not_lt.mp hr)] at h

/-- A number of at most `halfMax` in magnitude can be doubled exactly. -/
theorem IsReal.rounded_double {x : Float32} {r : ℝ} (h : IsReal x r) (hr : |r| ≤ halfMax) :
    rounded (2 * r) = ((2 * r : ℝ) : EReal) := by
  obtain ⟨m, e, habs, hshort, hleast, -, -⟩ := h.exists_magnitude
  have hsmall : 2 * |r| < 2 ^ 128 := by
    unfold halfMax at hr
    linarith
  have hgrid : onGrid (2 * |r|) = 2 * |r| := habs ▸ onGrid_double hshort hleast
  have hdouble : rounded (2 * |r|) = ((2 * |r| : ℝ) : EReal) := by
    rw [rounded_of_nonneg (by positivity), hgrid, clip_of_lt hsmall]
  rw [rounded_two_mul_of_abs hdouble]
  split_ifs with hneg
  · rw [abs_of_neg hneg, mul_neg, EReal.coe_neg, neg_neg]
  · rw [abs_of_nonneg (not_lt.mp hneg)]

theorem IsReal.rounded_double_overflow {x : Float32} {r : ℝ} (h : IsReal x r)
    (hr : halfMax < |r|) : rounded (2 * r) = if r < 0 then ⊥ else ⊤ := by
  obtain ⟨m, e, habs, hshort, hleast, hrange, hshape⟩ := h.exists_magnitude
  have htop : e = 104 := by
    by_contra hne
    have hsmall : magnitude m e ≤ halfMax := by
      have hle := magnitude_le_of_exponent_le hshort (show e ≤ 103 by omega)
      rwa [zpow_ofNat] at hle
    rw [habs] at hr
    linarith
  have hlong : (2 : ℝ) ^ 23 ≤ m := by exact_mod_cast hshape.resolve_right (by omega)
  have hlarge : 2 ^ 128 ≤ 2 * |r| := by
    rw [habs, two_mul_magnitude, htop]
    calc
      (2 : ℝ) ^ 128 = 2 ^ 23 * (2 : ℝ) ^ ((104 : ℤ) + 1) := by norm_num
      _ ≤ magnitude m (104 + 1) := mul_le_mul_of_nonneg_right hlong (by positivity)
  have hgrid : onGrid (2 * |r|) = 2 * |r| := habs ▸ onGrid_double hshort hleast
  have hdouble : rounded (2 * |r|) = ⊤ := by
    rw [rounded_of_nonneg (by positivity), hgrid, clip, if_pos hlarge]
  rw [rounded_two_mul_of_abs hdouble, EReal.neg_top]

theorem value_mul_half {x : Float32} (hx : IsNumber x) :
    IsNumber (x * 0.5) ∧ value (x * 0.5) = halve (value x) := by
  have hpositive : (0 : ℝ) < 1 / 2 := by norm_num
  obtain ⟨hnumber, hvalue⟩ := value_mul hx isReal_half.isNumber
    (fun _ => by rw [isReal_half.value_eq]; exact ⟨EReal.coe_ne_bot _, EReal.coe_ne_top _⟩)
    (fun hzero => absurd (EReal.coe_eq_zero.mp (isReal_half.value_eq.symm.trans hzero))
      hpositive.ne')
  refine ⟨hnumber, hvalue.trans ?_⟩
  rw [isReal_half.value_eq]
  rcases value_cases x with h | h | ⟨r, h⟩
  · rw [h, EReal.bot_mul_coe_of_pos hpositive, nearest_bot, halve_bot]
  · rw [h, EReal.top_mul_coe_of_pos hpositive, nearest_top, halve_top]
  · rw [h, ← EReal.coe_mul, nearest_coe, halve_coe]

/-- Doubling and halving a finite number returns it or overflows outwards. -/
theorem IsReal.halve_rounded_double {x : Float32} {r : ℝ} (h : IsReal x r) :
    (r ≤ halfMax → halve (rounded (2 * r)) ≤ r) ∧ (-halfMax ≤ r → r ≤ halve (rounded (2 * r))) := by
  have hpositive := halfMax_pos
  rcases le_or_gt |r| halfMax with hsmall | hlarge
  · have hback : 2 * r * (1 / 2) = r := by ring
    rw [h.rounded_double hsmall, halve_coe, hback, h.rounded_eq]
    exact ⟨fun _ => le_rfl, fun _ => le_rfl⟩
  · rw [h.rounded_double_overflow hlarge]
    split_ifs with hneg
    · rw [abs_of_neg hneg] at hlarge
      exact ⟨fun _ => by simp, fun hr => absurd hr (by linarith)⟩
    · rw [abs_of_nonneg (not_lt.mp hneg)] at hlarge
      exact ⟨fun hr => absurd hr (by linarith), fun _ => by simp⟩

/-- How the midpoint of a finite interval lies to its ends. Overflow takes it past
an end only if that end is more than `halfMax` in magnitude. -/
structure Halved (mid : Float32) (a b : ℝ) : Prop where
  isNumber : IsNumber mid
  le_upper : b ≤ halfMax → value mid ≤ b
  lower_le : -halfMax ≤ a → a ≤ value mid
  magnitude_le : ∀ c : ℝ, value mid = c → |c| ≤ halfMax

theorem IsReal.halved {lo hi : Float32} {a b : ℝ} (ha : IsReal lo a) (hb : IsReal hi b)
    (hab : a ≤ b) : Halved (midpoint lo hi) a b := by
  obtain ⟨hnumber, hsum⟩ := ha.add hb
  obtain ⟨hmid, hvalue⟩ := value_mul_half hnumber
  change IsNumber (midpoint lo hi) at hmid
  change value (midpoint lo hi) = _ at hvalue
  refine ⟨hmid, ?_, ?_, ?_⟩
  · intro hsmall
    rw [hvalue, hsum]
    exact (halve_mono (rounded_mono (by linarith))).trans (hb.halve_rounded_double.1 hsmall)
  · intro hsmall
    rw [hvalue, hsum]
    exact (ha.halve_rounded_double.2 hsmall).trans (halve_mono (rounded_mono (by linarith)))
  · intro c hc
    rcases value_cases (lo + hi) with h | h | ⟨s, h⟩
    · rw [h, halve_bot, hc] at hvalue
      exact absurd hvalue (EReal.coe_ne_bot c)
    · rw [h, halve_top, hc] at hvalue
      exact absurd hvalue (EReal.coe_ne_top c)
    · rw [h, halve_coe, hc] at hvalue
      obtain ⟨hlow, hhigh⟩ := abs_le.mp (IsReal.abs_le_max ⟨hnumber, h⟩)
      have hle : (c : EReal) ≤ halfMax := by
        rw [hvalue, ← rounded_halfMax]
        exact rounded_mono (by linarith)
      have hge : ((-halfMax : ℝ) : EReal) ≤ c := by
        rw [hvalue, EReal.coe_neg, ← rounded_halfMax, ← rounded_neg]
        exact rounded_mono (by linarith)
      exact abs_le.mpr
        ⟨EReal.coe_le_coe_iff.mp hge, EReal.coe_le_coe_iff.mp hle⟩

/-- The midpoint of an interval with an infinite end and no opposite one is that
infinity. -/
theorem midpoint_top {lo hi : Float32} (hlo : IsNumber lo) (hhi : IsNumber hi)
    (hnlo : value lo ≠ ⊥) (hnhi : value hi ≠ ⊥) (h : value lo = ⊤ ∨ value hi = ⊤) :
    IsNumber (midpoint lo hi) ∧ value (midpoint lo hi) = ⊤ := by
  obtain ⟨hnumber, hsum⟩ := value_add hlo hhi (Or.inl hnlo) (Or.inr hnhi)
  have htop : value lo + value hi = ⊤ := by
    rcases h with h | h
    · rw [h, EReal.top_add_of_ne_bot hnhi]
    · rw [h, EReal.add_top_of_ne_bot hnlo]
  obtain ⟨hmid, hvalue⟩ := value_mul_half hnumber
  rw [hsum, htop, nearest_top, halve_top] at hvalue
  exact ⟨hmid, hvalue⟩

theorem midpoint_bot {lo hi : Float32} (hlo : IsNumber lo) (hhi : IsNumber hi)
    (hnlo : value lo ≠ ⊤) (hnhi : value hi ≠ ⊤) (h : value lo = ⊥ ∨ value hi = ⊥) :
    IsNumber (midpoint lo hi) ∧ value (midpoint lo hi) = ⊥ := by
  obtain ⟨hnumber, hsum⟩ := value_add hlo hhi (Or.inr hnhi) (Or.inl hnlo)
  have hbot : value lo + value hi = ⊥ := by
    rcases h with h | h
    · rw [h, EReal.bot_add]
    · rw [h, EReal.add_bot]
  obtain ⟨hmid, hvalue⟩ := value_mul_half hnumber
  rw [hsum, hbot, nearest_bot, halve_bot] at hvalue
  exact ⟨hmid, hvalue⟩

/-- The invariant of the intervals that arise by halving from a finite one. An end
that is more than `halfMax` in magnitude is no nearer to zero than that end of the
first interval. -/
structure Tame (first last lo hi : Float32) : Prop where
  lo_isNumber : IsNumber lo
  hi_isNumber : IsNumber hi
  one_sided : (value lo ≠ ⊥ ∧ value hi ≠ ⊥) ∨ (value lo ≠ ⊤ ∧ value hi ≠ ⊤)
  ordered : ∀ a b : ℝ, value lo = a → value hi = b → a ≤ b
  upper : halfMax < value hi → value last ≤ value hi
  lower : value lo < -halfMax → value lo ≤ value first

theorem tame_self {lo hi : Float32} (hlo : lo.isFinite = true) (hhi : hi.isFinite = true)
    (h : lo ≤ hi) : Tame lo hi lo hi := by
  obtain ⟨a, ha⟩ := isReal_of_isFinite hlo
  obtain ⟨b, hb⟩ := isReal_of_isFinite hhi
  refine ⟨ha.isNumber, hb.isNumber, Or.inl ?_, ?_, fun _ => le_rfl,
    fun _ => le_rfl⟩
  · rw [ha.value_eq, hb.value_eq]
    exact ⟨EReal.coe_ne_bot a, EReal.coe_ne_bot b⟩
  · intro x y hx hy
    have hvalue := (le_iff.mp h).2.2
    rw [hx, hy] at hvalue
    exact EReal.coe_le_coe_iff.mp hvalue

/-- What halving does to a tame interval: the midpoint of finite ends is as
`Halved` tells, and any other midpoint is the infinity of an end. -/
theorem Tame.halving {first last lo hi : Float32} (h : Tame first last lo hi) :
    (∃ a b : ℝ, IsReal lo a ∧ IsReal hi b ∧ a ≤ b ∧ Halved (midpoint lo hi) a b) ∨
      ((value lo ≠ ⊥ ∧ value hi ≠ ⊥ ∧ (value lo = ⊤ ∨ value hi = ⊤)) ∧
        IsNumber (midpoint lo hi) ∧ value (midpoint lo hi) = ⊤) ∨
      ((value lo ≠ ⊤ ∧ value hi ≠ ⊤ ∧ (value lo = ⊥ ∨ value hi = ⊥)) ∧
        IsNumber (midpoint lo hi) ∧ value (midpoint lo hi) = ⊥) := by
  rcases h.one_sided with ⟨hlo, hhi⟩ | ⟨hlo, hhi⟩
  · by_cases hinf : value lo = ⊤ ∨ value hi = ⊤
    · exact Or.inr (Or.inl
        ⟨⟨hlo, hhi, hinf⟩, midpoint_top h.lo_isNumber h.hi_isNumber hlo hhi hinf⟩)
    · rw [not_or] at hinf
      obtain ⟨a, ha⟩ := ((value_cases lo).resolve_left hlo).resolve_left hinf.1
      obtain ⟨b, hb⟩ := ((value_cases hi).resolve_left hhi).resolve_left hinf.2
      have hab := h.ordered a b ha hb
      exact Or.inl ⟨a, b, ⟨h.lo_isNumber, ha⟩, ⟨h.hi_isNumber, hb⟩, hab,
        IsReal.halved ⟨h.lo_isNumber, ha⟩ ⟨h.hi_isNumber, hb⟩ hab⟩
  · by_cases hinf : value lo = ⊥ ∨ value hi = ⊥
    · exact Or.inr (Or.inr
        ⟨⟨hlo, hhi, hinf⟩, midpoint_bot h.lo_isNumber h.hi_isNumber hlo hhi hinf⟩)
    · rw [not_or] at hinf
      obtain ⟨a, ha⟩ := ((value_cases lo).resolve_left hinf.1).resolve_left hlo
      obtain ⟨b, hb⟩ := ((value_cases hi).resolve_left hinf.2).resolve_left hhi
      have hab := h.ordered a b ha hb
      exact Or.inl ⟨a, b, ⟨h.lo_isNumber, ha⟩, ⟨h.hi_isNumber, hb⟩, hab,
        IsReal.halved ⟨h.lo_isNumber, ha⟩ ⟨h.hi_isNumber, hb⟩ hab⟩

theorem Tame.midpoint_isNumber {first last lo hi : Float32} (h : Tame first last lo hi) :
    IsNumber (midpoint lo hi) := by
  rcases h.halving with ⟨a, b, -, -, -, hmid⟩ | ⟨-, hmid, -⟩ | ⟨-, hmid, -⟩
  · exact hmid.isNumber
  · exact hmid
  · exact hmid

private theorem Halved.lower_bounds {mid : Float32} {a b : ℝ} (h : Halved mid a b) (c : ℝ)
    (hc : value mid = c) : a ≤ c := by
  by_cases ha : -halfMax ≤ a
  · exact EReal.coe_le_coe_iff.mp (hc ▸ h.lower_le ha)
  · linarith [(abs_le.mp (h.magnitude_le c hc)).1]

private theorem Halved.upper_bounds {mid : Float32} {a b : ℝ} (h : Halved mid a b) (c : ℝ)
    (hc : value mid = c) : c ≤ b := by
  by_cases hb : b ≤ halfMax
  · exact EReal.coe_le_coe_iff.mp (hc ▸ h.le_upper hb)
  · linarith [(abs_le.mp (h.magnitude_le c hc)).2]

private theorem Halved.eq_top {mid : Float32} {a b : ℝ} (h : Halved mid a b)
    (hlarge : halfMax < value mid) : value mid = ⊤ := by
  rcases value_cases mid with hmid | hmid | ⟨c, hmid⟩
  · exact absurd (hmid ▸ hlarge) (not_lt_bot)
  · exact hmid
  · rw [hmid] at hlarge
    exact absurd (EReal.coe_lt_coe_iff.mp hlarge) (not_lt.mpr (abs_le.mp (h.magnitude_le c hmid)).2)

private theorem Halved.eq_bot {mid : Float32} {a b : ℝ} (h : Halved mid a b)
    (hlarge : value mid < -halfMax) : value mid = ⊥ := by
  rcases value_cases mid with hmid | hmid | ⟨c, hmid⟩
  · exact hmid
  · exact absurd (hmid ▸ hlarge) (not_top_lt)
  · rw [hmid] at hlarge
    exact absurd (EReal.coe_lt_coe_iff.mp hlarge) (not_lt.mpr (abs_le.mp (h.magnitude_le c hmid)).1)

theorem Tame.low {first last lo hi : Float32} (h : Tame first last lo hi) :
    Tame first last lo (midpoint lo hi) := by
  refine ⟨h.lo_isNumber, h.midpoint_isNumber, ?_, ?_, ?_, h.lower⟩
  · rcases h.halving with ⟨a, b, ha, -, -, -⟩ | ⟨⟨hlo, -, -⟩, -, hmid⟩ | ⟨⟨hlo, -, -⟩, -, hmid⟩
    · rw [ha.value_eq]
      rcases eq_or_ne (value (midpoint lo hi)) ⊥ with hmid | hmid
      · exact Or.inr ⟨EReal.coe_ne_top a, by simp [hmid]⟩
      · exact Or.inl ⟨EReal.coe_ne_bot a, hmid⟩
    · exact Or.inl ⟨hlo, by simp [hmid]⟩
    · exact Or.inr ⟨hlo, by simp [hmid]⟩
  · intro a c ha hc
    rcases h.halving with ⟨a', b, ha', -, -, hmid⟩ | ⟨-, -, hmid⟩ | ⟨-, -, hmid⟩
    · rw [ha'.value_eq, EReal.coe_eq_coe_iff] at ha
      exact ha ▸ hmid.lower_bounds c hc
    · exact absurd (hmid.symm.trans hc).symm (EReal.coe_ne_top c)
    · exact absurd (hmid.symm.trans hc).symm (EReal.coe_ne_bot c)
  · intro hlarge
    rcases h.halving with ⟨a, b, -, -, -, hmid⟩ | ⟨-, -, hmid⟩ | ⟨-, -, hmid⟩
    · exact hmid.eq_top hlarge ▸ le_top
    · exact hmid ▸ le_top
    · exact absurd (hmid ▸ hlarge) not_lt_bot

theorem Tame.high {first last lo hi : Float32} (h : Tame first last lo hi) :
    Tame first last (midpoint lo hi) hi := by
  refine ⟨h.midpoint_isNumber, h.hi_isNumber, ?_, ?_, h.upper, ?_⟩
  · rcases h.halving with ⟨a, b, -, hb, -, -⟩ | ⟨⟨-, hhi, -⟩, -, hmid⟩ | ⟨⟨-, hhi, -⟩, -, hmid⟩
    · rw [hb.value_eq]
      rcases eq_or_ne (value (midpoint lo hi)) ⊥ with hmid | hmid
      · exact Or.inr ⟨by simp [hmid], EReal.coe_ne_top b⟩
      · exact Or.inl ⟨hmid, EReal.coe_ne_bot b⟩
    · exact Or.inl ⟨by simp [hmid], hhi⟩
    · exact Or.inr ⟨by simp [hmid], hhi⟩
  · intro c b hc hb
    rcases h.halving with ⟨a, b', -, hb', -, hmid⟩ | ⟨-, -, hmid⟩ | ⟨-, -, hmid⟩
    · rw [hb'.value_eq, EReal.coe_eq_coe_iff] at hb
      exact hb ▸ hmid.upper_bounds c hc
    · exact absurd (hmid.symm.trans hc).symm (EReal.coe_ne_top c)
    · exact absurd (hmid.symm.trans hc).symm (EReal.coe_ne_bot c)
  · intro hlarge
    rcases h.halving with ⟨a, b, -, -, -, hmid⟩ | ⟨-, -, hmid⟩ | ⟨-, -, hmid⟩
    · exact hmid.eq_bot hlarge ▸ bot_le
    · exact absurd (hmid ▸ hlarge) not_top_lt
    · exact hmid ▸ bot_le

/-- A finite point of the lower half does not exceed the interval. -/
theorem Tame.le_of_low {first last lo hi x : Float32} {r : ℝ} (h : Tame first last lo hi)
    (hx : IsReal x r) (hlast : x ≤ last) (hlo : lo ≤ x) (hmid : x ≤ midpoint lo hi) : x ≤ hi := by
  refine le_iff.mpr ⟨hx.isNumber, h.hi_isNumber, ?_⟩
  rcases lt_or_ge (halfMax : EReal) (value hi) with hlarge | hsmall
  · exact (le_iff.mp hlast).2.2.trans (h.upper hlarge)
  · have hxmid := (le_iff.mp hmid).2.2
    rcases h.halving with ⟨a, b, -, hb, -, hmid⟩ | ⟨⟨-, -, hinf⟩, -, -⟩ | ⟨-, -, hmid⟩
    · rw [hb.value_eq] at hsmall ⊢
      exact hxmid.trans (hmid.le_upper (EReal.coe_le_coe_iff.mp hsmall))
    · -- the upper end is finite, so the lower one is infinite and above the point
      have htop : value lo = ⊤ :=
        hinf.resolve_right fun heq => EReal.coe_ne_top halfMax (top_le_iff.mp (heq ▸ hsmall))
      have hle := (le_iff.mp hlo).2.2
      rw [htop, hx.value_eq] at hle
      exact absurd (top_le_iff.mp hle) (EReal.coe_ne_top r)
    · rw [hmid, hx.value_eq] at hxmid
      exact absurd (le_bot_iff.mp hxmid) (EReal.coe_ne_bot r)

/-- A finite point of the upper half is not below the interval. -/
theorem Tame.le_of_high {first last lo hi x : Float32} {r : ℝ} (h : Tame first last lo hi)
    (hx : IsReal x r) (hfirst : first ≤ x) (hhi : x ≤ hi) (hmid : midpoint lo hi ≤ x) :
    lo ≤ x := by
  refine le_iff.mpr ⟨h.lo_isNumber, hx.isNumber, ?_⟩
  rcases lt_or_ge (value lo) (-halfMax : EReal) with hlarge | hsmall
  · exact (h.lower hlarge).trans (le_iff.mp hfirst).2.2
  · have hmidx := (le_iff.mp hmid).2.2
    rw [← EReal.coe_neg] at hsmall
    rcases h.halving with ⟨a, b, ha, -, -, hmid⟩ | ⟨-, -, hmid⟩ | ⟨⟨-, -, hinf⟩, -, -⟩
    · rw [ha.value_eq] at hsmall ⊢
      exact (hmid.lower_le (EReal.coe_le_coe_iff.mp hsmall)).trans hmidx
    · rw [hmid, hx.value_eq] at hmidx
      exact absurd (top_le_iff.mp hmidx) (EReal.coe_ne_top r)
    · -- the lower end is finite, so the upper one is infinite and below the point
      have hbot : value hi = ⊥ :=
        hinf.resolve_left fun heq => EReal.coe_ne_bot _ (le_bot_iff.mp (heq ▸ hsmall))
      have hle := (le_iff.mp hhi).2.2
      rw [hbot, hx.value_eq] at hle
      exact absurd (le_bot_iff.mp hle) (EReal.coe_ne_bot r)

/-- Half of the greatest finite number, as a number. -/
def halfGreatest : Float32 := .ofBits 0x7effffff

/-- An interval without overflow: both ends are finite and at most `halfMax` in
magnitude. -/
structure Moderate (lo hi : Float32) : Prop where
  exists_ends : ∃ a b : ℝ, IsReal lo a ∧ IsReal hi b ∧ a ≤ b ∧ -halfMax ≤ a ∧ b ≤ halfMax

/-- The midpoint of a moderate interval lies in it, and both halves are moderate. -/
theorem Moderate.halves {lo hi : Float32} (h : Moderate lo hi) :
    (lo ≤ midpoint lo hi ∧ midpoint lo hi ≤ hi) ∧
      Moderate lo (midpoint lo hi) ∧ Moderate (midpoint lo hi) hi := by
  obtain ⟨a, b, ha, hb, hab, hlow, hhigh⟩ := h.exists_ends
  have hmid := IsReal.halved ha hb hab
  have hle := hmid.le_upper hhigh
  have hge := hmid.lower_le hlow
  obtain ⟨c, hc⟩ := ((value_cases (midpoint lo hi)).resolve_left fun heq =>
    EReal.coe_ne_bot a (le_bot_iff.mp (heq ▸ hge))).resolve_left fun heq =>
    EReal.coe_ne_top b (top_le_iff.mp (heq ▸ hle))
  have hreal : IsReal (midpoint lo hi) c := ⟨hmid.isNumber, hc⟩
  rw [hc] at hle hge
  have hac := EReal.coe_le_coe_iff.mp hge
  have hcb := EReal.coe_le_coe_iff.mp hle
  refine ⟨⟨?_, ?_⟩, ⟨a, c, ha, hreal, hac, hlow, hcb.trans hhigh⟩,
    ⟨c, b, hreal, hb, hcb, hlow.trans hac, hhigh⟩⟩
  · exact le_iff.mpr ⟨ha.isNumber, hmid.isNumber, by rw [ha.value_eq, hc]; exact hge⟩
  · exact le_iff.mpr ⟨hmid.isNumber, hb.isNumber, by rw [hb.value_eq, hc]; exact hle⟩

theorem IsReal.isFinite {x : Float32} {r : ℝ} (h : IsReal x r) : x.isFinite = true := by
  change x.toModel.unpack.isFinite = true
  rcases h.cases with ⟨s, hx, -⟩ | ⟨s, m, e, hm, hx, -⟩
  · rw [hx]
    rfl
  · rw [hx]
    rfl

theorem isFinite_of_between {a x b : Float32} (ha : a.isFinite = true) (hb : b.isFinite = true)
    (hax : a ≤ x) (hxb : x ≤ b) : x.isFinite = true := by
  obtain ⟨r, hr⟩ := isReal_of_isFinite ha
  obtain ⟨s, hs⟩ := isReal_of_isFinite hb
  obtain ⟨q, hq, -, -⟩ := hr.between hs hax hxb
  exact hq.isFinite

/-- The midpoint of a finite interval lies in it unless it overflows. -/
theorem isFinite_midpoint_iff {lo hi : Float32} (hlo : lo.isFinite = true)
    (hhi : hi.isFinite = true) (h : lo ≤ hi) :
    (midpoint lo hi).isFinite = true ↔ lo ≤ midpoint lo hi ∧ midpoint lo hi ≤ hi := by
  constructor
  · intro hmid
    obtain ⟨a, ha⟩ := isReal_of_isFinite hlo
    obtain ⟨b, hb⟩ := isReal_of_isFinite hhi
    obtain ⟨c, hc⟩ := isReal_of_isFinite hmid
    have hhalved := IsReal.halved ha hb ((ha.le_iff hb).mp h)
    exact ⟨(ha.le_iff hc).mpr (hhalved.lower_bounds c hc.value_eq),
      (hc.le_iff hb).mpr (hhalved.upper_bounds c hc.value_eq)⟩
  · rintro ⟨hleft, hright⟩
    exact isFinite_of_between hlo hhi hleft hright

private theorem isReal_halfGreatest : IsReal halfGreatest halfMax where
  isNumber := rfl
  value_eq := by
    have hunpack : halfGreatest.toModel.unpack =
        .finite .positive (2 ^ 24 - 1) 103 (by norm_num) := rfl
    unfold value
    rw [hunpack, decoded_finite]
    norm_num [signed, magnitude, halfMax]

private theorem isReal_neg_halfGreatest : IsReal (-halfGreatest) (-halfMax) where
  isNumber := rfl
  value_eq := by
    have hunpack : (-halfGreatest).toModel.unpack =
        .finite .negative (2 ^ 24 - 1) 103 (by norm_num) := rfl
    unfold value
    rw [hunpack, decoded_finite]
    norm_num [signed, magnitude, halfMax]

theorem moderate_of_le {lo hi : Float32} (hlo : lo.isFinite = true) (hhi : hi.isFinite = true)
    (h : lo ≤ hi) (hleast : -halfGreatest ≤ lo) (hgreatest : hi ≤ halfGreatest) :
    Moderate lo hi := by
  obtain ⟨a, ha⟩ := isReal_of_isFinite hlo
  obtain ⟨b, hb⟩ := isReal_of_isFinite hhi
  have hab := (le_iff.mp h).2.2
  have hlow := (le_iff.mp hleast).2.2
  have hhigh := (le_iff.mp hgreatest).2.2
  rw [ha.value_eq, hb.value_eq, EReal.coe_le_coe_iff] at hab
  rw [ha.value_eq, isReal_neg_halfGreatest.value_eq, EReal.coe_le_coe_iff] at hlow
  rw [hb.value_eq, isReal_halfGreatest.value_eq, EReal.coe_le_coe_iff] at hhigh
  exact ⟨a, b, ha, hb, hab, hlow, hhigh⟩

end Scalar

end Broadphase
