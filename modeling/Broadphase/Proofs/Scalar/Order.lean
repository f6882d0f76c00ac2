import Mathlib
import Broadphase.Proofs.Scalar.Decode
import Broadphase.Proofs.Scalar.Rounding

/-!
The order of binary32 numbers. Each number stands for an extended real value, and
`≤` and `<` hold exactly if both sides are numbers and their values compare so.
The usual laws follow, each without asking for more numbers than it needs.
-/

namespace Broadphase

namespace Scalar

open Float.Model Float.Model.UnpackedFloat

/-- The value of a decoded number. What is no number gets the value zero. -/
noncomputable def decoded : UnpackedFloat → EReal
  | .notANumber => 0
  | .infinity .positive => ⊤
  | .infinity .negative => ⊥
  | .zero _ => 0
  | .finite .positive m e _ => (magnitude m e : EReal)
  | .finite .negative m e _ => ((-magnitude m e : ℝ) : EReal)

theorem magnitude_lt_of_exponent_lt {m₁ m₂ : ℕ} {e₁ e₂ : ℤ} (h : e₁ < e₂)
    (h₁ : m₁ < 2 ^ 24) (he : -149 ≤ e₁) (h₂ : 2 ^ 23 ≤ m₂ ∨ e₂ = -149) :
    magnitude m₁ e₁ < magnitude m₂ e₂ := by
  have hm₂ : 2 ^ 23 ≤ m₂ := h₂.resolve_right (by omega)
  have hlow : (m₁ : ℝ) < 2 ^ 24 := by exact_mod_cast h₁
  have hhigh : (2 : ℝ) ^ 23 ≤ m₂ := by exact_mod_cast hm₂
  calc
    magnitude m₁ e₁ < 2 ^ 24 * (2 : ℝ) ^ e₁ := mul_lt_mul_of_pos_right hlow (by positivity)
    _ = 2 ^ 23 * (2 : ℝ) ^ (e₁ + 1) := by
      rw [zpow_add_one₀ (by norm_num)]
      ring
    _ ≤ 2 ^ 23 * (2 : ℝ) ^ e₂ :=
      mul_le_mul_of_nonneg_left (zpow_le_zpow_right₀ (by norm_num) h) (by positivity)
    _ ≤ magnitude m₂ e₂ := mul_le_mul_of_nonneg_right hhigh (by positivity)

/-- Comparing exponents first and significands second compares magnitudes. -/
theorem compare_then_compare {m₁ m₂ : ℕ} {e₁ e₂ : ℤ} {hm₁ : 0 < m₁} {hm₂ : 0 < m₂} {s₁ s₂ : Sign}
    (h₁ : Canonical (.finite s₁ m₁ e₁ hm₁)) (h₂ : Canonical (.finite s₂ m₂ e₂ hm₂)) :
    (compare e₁ e₂).then (compare m₁ m₂) = cmp (magnitude m₁ e₁) (magnitude m₂ e₂) := by
  rcases lt_trichotomy e₁ e₂ with he | rfl | he
  · have hlt := magnitude_lt_of_exponent_lt he h₁.1 h₁.2.1 h₂.2.2
    rw [compare_lt_iff_lt.mpr he, (cmp_eq_lt_iff _ _).mpr hlt]
    rfl
  · rw [compare_eq_iff_eq.mpr rfl, Ordering.eq_then]
    have hmono : StrictMono fun m : ℕ => magnitude m e₁ := fun a b hab =>
      mul_lt_mul_of_pos_right (by exact_mod_cast hab) (by positivity)
    rw [hmono.cmp_map_eq, cmp_eq_compare]
  · have hlt := magnitude_lt_of_exponent_lt he h₂.1 h₂.2.1 h₁.2.2
    rw [compare_gt_iff_gt.mpr he, (cmp_eq_gt_iff _ _).mpr hlt]
    rfl

private theorem some_lt {x y : EReal} (h : x < y) : some .lt = some (cmp x y) :=
  congrArg some ((cmp_eq_lt_iff x y).mpr h).symm

private theorem some_gt {x y : EReal} (h : y < x) : some .gt = some (cmp x y) :=
  congrArg some ((cmp_eq_gt_iff x y).mpr h).symm

private theorem decoded_finite_positive {m : ℕ} (e : ℤ) (hm : 0 < m) :
    0 < decoded (.finite .positive m e hm) :=
  EReal.coe_pos.mpr (magnitude_pos hm e)

private theorem decoded_finite_negative {m : ℕ} (e : ℤ) (hm : 0 < m) :
    decoded (.finite .negative m e hm) < 0 :=
  EReal.coe_neg'.mpr (neg_neg_of_pos (magnitude_pos hm e))

private theorem bot_lt_decoded_finite (s : Sign) {m : ℕ} (e : ℤ) (hm : 0 < m) :
    ⊥ < decoded (.finite s m e hm) := by
  cases s <;> exact EReal.bot_lt_coe _

private theorem decoded_finite_lt_top (s : Sign) {m : ℕ} (e : ℤ) (hm : 0 < m) :
    decoded (.finite s m e hm) < ⊤ := by
  cases s <;> exact EReal.coe_lt_top _

private theorem compare_finite {s t : Sign} {m₁ m₂ : ℕ} {e₁ e₂ : ℤ} {hm₁ : 0 < m₁} {hm₂ : 0 < m₂}
    (hu : Canonical (.finite s m₁ e₁ hm₁)) (hv : Canonical (.finite t m₂ e₂ hm₂)) :
    UnpackedFloat.compare (.finite s m₁ e₁ hm₁) (.finite t m₂ e₂ hm₂) =
      some (cmp (decoded (.finite s m₁ e₁ hm₁)) (decoded (.finite t m₂ e₂ hm₂))) := by
  cases s with
  | positive =>
      cases t with
      | positive =>
          change some ((compare e₁ e₂).then (compare m₁ m₂)) = _
          rw [compare_then_compare hu hv]
          exact congrArg some (EReal.coe_strictMono.cmp_map_eq _ _).symm
      | negative =>
          exact some_gt ((decoded_finite_negative e₂ hm₂).trans (decoded_finite_positive e₁ hm₁))
  | negative =>
      cases t with
      | positive =>
          exact some_lt ((decoded_finite_negative e₁ hm₁).trans (decoded_finite_positive e₂ hm₂))
      | negative =>
          have hneg : StrictAnti fun x : ℝ => ((-x : ℝ) : EReal) := fun a b hab =>
            EReal.coe_lt_coe_iff.mpr (neg_lt_neg hab)
          change some (((compare e₁ e₂).then (compare m₁ m₂)).swap) = _
          rw [compare_then_compare hu hv, cmp_swap]
          exact congrArg some (hneg.cmp_map_eq _ _).symm

/-- The comparison of canonical numbers is the order of their values. -/
theorem compare_canonical {u v : UnpackedFloat} (hu : Canonical u) (hv : Canonical v)
    (hnu : u.isNaN = false) (hnv : v.isNaN = false) :
    u.compare v = some (cmp (decoded u) (decoded v)) := by
  cases u with
  | notANumber => cases hnu
  | infinity s =>
      cases v with
      | notANumber => cases hnv
      | infinity t =>
          cases s <;> cases t <;> simp [UnpackedFloat.compare, decoded, cmp, cmpUsing] <;> rfl
      | zero t => cases s <;> simp [UnpackedFloat.compare, decoded, cmp, cmpUsing]
      | finite t m e hm =>
          cases s with
          | positive => exact some_gt (decoded_finite_lt_top t e hm)
          | negative => exact some_lt (bot_lt_decoded_finite t e hm)
  | zero s =>
      cases v with
      | notANumber => cases hnv
      | infinity t => cases t <;> simp [UnpackedFloat.compare, decoded, cmp, cmpUsing]
      | zero t => simp [UnpackedFloat.compare, decoded]
      | finite t m e hm =>
          cases t with
          | positive => exact some_lt (decoded_finite_positive e hm)
          | negative => exact some_gt (decoded_finite_negative e hm)
  | finite s m e hm =>
      cases v with
      | notANumber => cases hnv
      | infinity t =>
          cases t with
          | positive => exact some_lt (decoded_finite_lt_top s e hm)
          | negative => exact some_gt (bot_lt_decoded_finite s e hm)
      | zero t =>
          cases s with
          | positive => exact some_gt (decoded_finite_positive e hm)
          | negative => exact some_lt (decoded_finite_negative e hm)
      | finite t m' e' hm' => exact compare_finite hu hv

/-- A binary32 number that is not NaN. -/
def IsNumber (x : Float32) : Prop := x.isNaN = false

noncomputable def value (x : Float32) : EReal := decoded x.toModel.unpack

theorem compare_toModel {a b : Float32} (ha : IsNumber a) (hb : IsNumber b) :
    a.toModel.unpack.compare b.toModel.unpack = some (cmp (value a) (value b)) :=
  compare_canonical (unpack_canonical _).1 (unpack_canonical _).1 ha hb

theorem isNumber_of_compare {a b : Float32} {o : Ordering}
    (h : a.toModel.unpack.compare b.toModel.unpack = some o) : IsNumber a ∧ IsNumber b := by
  change a.toModel.unpack.isNaN = false ∧ b.toModel.unpack.isNaN = false
  generalize a.toModel.unpack = u at h
  generalize b.toModel.unpack = v at h
  cases u <;> cases v <;> first | exact ⟨rfl, rfl⟩ | simp [UnpackedFloat.compare] at h

/-- `≤` holds between numbers with values in order, and never with a NaN. -/
theorem le_iff {a b : Float32} : a ≤ b ↔ IsNumber a ∧ IsNumber b ∧ value a ≤ value b := by
  have hle : a ≤ b ↔ (a.toModel.unpack.compare b.toModel.unpack).any (·.isLE) = true :=
    decide_eq_true_iff
  rw [hle, Option.any_eq_true]
  constructor
  · rintro ⟨o, ho, horder⟩
    obtain ⟨ha, hb⟩ := isNumber_of_compare ho
    rw [compare_toModel ha hb, Option.some.injEq] at ho
    refine ⟨ha, hb, not_lt.mp ?_⟩
    intro hlt
    rw [(cmp_eq_gt_iff _ _).mpr hlt] at ho
    rw [← ho] at horder
    cases horder
  · rintro ⟨ha, hb, h⟩
    refine ⟨_, compare_toModel ha hb, ?_⟩
    rcases h.lt_or_eq with hlt | heq
    · rw [(cmp_eq_lt_iff _ _).mpr hlt]
      rfl
    · rw [(cmp_eq_eq_iff _ _).mpr heq]
      rfl

/-- `<` holds between numbers with values in strict order. -/
theorem lt_iff {a b : Float32} : a < b ↔ IsNumber a ∧ IsNumber b ∧ value a < value b := by
  have hlt : a < b ↔ (a.toModel.unpack.compare b.toModel.unpack == some .lt) = true :=
    decide_eq_true_iff
  rw [hlt, beq_iff_eq]
  constructor
  · intro h
    obtain ⟨ha, hb⟩ := isNumber_of_compare h
    rw [compare_toModel ha hb, Option.some.injEq] at h
    exact ⟨ha, hb, (cmp_eq_lt_iff _ _).mp h⟩
  · rintro ⟨ha, hb, h⟩
    rw [compare_toModel ha hb, (cmp_eq_lt_iff _ _).mpr h]

/-- `==` holds between numbers with the same value, and never with a NaN. -/
theorem beq_iff {a b : Float32} :
    (a == b) = true ↔ IsNumber a ∧ IsNumber b ∧ value a = value b := by
  have hbeq : (a == b) = (a.toModel.unpack.compare b.toModel.unpack == some .eq) := rfl
  rw [hbeq, beq_iff_eq]
  constructor
  · intro h
    obtain ⟨ha, hb⟩ := isNumber_of_compare h
    rw [compare_toModel ha hb, Option.some.injEq] at h
    exact ⟨ha, hb, (cmp_eq_eq_iff _ _).mp h⟩
  · rintro ⟨ha, hb, h⟩
    rw [compare_toModel ha hb, (cmp_eq_eq_iff _ _).mpr h]

protected theorem le_trans {a b c : Float32} (h₁ : a ≤ b) (h₂ : b ≤ c) : a ≤ c := by
  obtain ⟨ha, -, hab⟩ := le_iff.mp h₁
  obtain ⟨-, hc, hbc⟩ := le_iff.mp h₂
  exact le_iff.mpr ⟨ha, hc, hab.trans hbc⟩

protected theorem le_refl {a : Float32} (ha : IsNumber a) : a ≤ a :=
  le_iff.mpr ⟨ha, ha, le_rfl⟩

protected theorem beq_of_le {a b : Float32} (h₁ : a ≤ b) (h₂ : b ≤ a) : (a == b) = true := by
  obtain ⟨ha, hb, hab⟩ := le_iff.mp h₁
  exact beq_iff.mpr ⟨ha, hb, le_antisymm hab (le_iff.mp h₂).2.2⟩

protected theorem not_le {a b : Float32} (ha : IsNumber a) (hb : IsNumber b) :
    ¬ a ≤ b ↔ b < a := by
  rw [le_iff, lt_iff]
  simp [ha, hb]

protected theorem le_of_lt {a b : Float32} (h : a < b) : a ≤ b := by
  obtain ⟨ha, hb, hab⟩ := lt_iff.mp h
  exact le_iff.mpr ⟨ha, hb, hab.le⟩

theorem value_of_isFinite {x : Float32} (h : x.isFinite = true) :
    IsNumber x ∧ ∃ r : ℝ, value x = r := by
  change x.toModel.unpack.isNaN = false ∧ ∃ r : ℝ, decoded x.toModel.unpack = r
  change x.toModel.unpack.isFinite = true at h
  cases hx : x.toModel.unpack with
  | notANumber => simp [hx, UnpackedFloat.isFinite] at h
  | infinity s => simp [hx, UnpackedFloat.isFinite] at h
  | zero s => exact ⟨rfl, 0, rfl⟩
  | finite s m e hm =>
      cases s with
      | positive => exact ⟨rfl, magnitude m e, rfl⟩
      | negative => exact ⟨rfl, -magnitude m e, rfl⟩

end Scalar

end Broadphase
