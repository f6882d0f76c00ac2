import Mathlib
import Broadphase.Scalar
import Broadphase.Proofs.Scalar.Arithmetic

/-!
Order of finite numbers, and sums and products of numbers that may be infinite. An
operation on numbers gives a NaN only for opposite infinities in a sum and for zero
times an infinity in a product. In all other cases its value is the extended real
result, rounded, and rounding keeps the infinities.
-/

namespace Broadphase

namespace Scalar

open Float.Model Float.Model.UnpackedFloat

theorem value_cases (x : Float32) : value x = ⊥ ∨ value x = ⊤ ∨ ∃ r : ℝ, value x = r := by
  induction value x with
  | bot => exact Or.inl rfl
  | top => exact Or.inr (Or.inl rfl)
  | coe r => exact Or.inr (Or.inr ⟨r, rfl⟩)

theorem unpack_of_value_top {x : Float32} (h : value x = ⊤) :
    x.toModel.unpack = .infinity .positive := by
  change decoded x.toModel.unpack = ⊤ at h
  cases hx : x.toModel.unpack with
  | notANumber => simp [hx, decoded] at h
  | infinity s => cases s <;> simp_all [decoded]
  | zero s => simp [hx, decoded] at h
  | finite s m e hm => simp [hx, decoded_finite] at h

theorem unpack_of_value_bot {x : Float32} (h : value x = ⊥) :
    x.toModel.unpack = .infinity .negative := by
  change decoded x.toModel.unpack = ⊥ at h
  cases hx : x.toModel.unpack with
  | notANumber => simp [hx, decoded] at h
  | infinity s => cases s <;> simp_all [decoded]
  | zero s => simp [hx, decoded] at h
  | finite s m e hm => simp [hx, decoded_finite] at h

theorem isReal_zero : IsReal 0 0 where
  isNumber := rfl
  value_eq := EReal.coe_zero.symm

theorem IsReal.le_iff {a b : Float32} {r s : ℝ} (ha : IsReal a r) (hb : IsReal b s) :
    a ≤ b ↔ r ≤ s := by
  rw [Scalar.le_iff, ha.value_eq, hb.value_eq, EReal.coe_le_coe_iff]
  exact ⟨fun h => h.2.2, fun h => ⟨ha.isNumber, hb.isNumber, h⟩⟩

/-- What lies between two finite numbers is finite. -/
theorem IsReal.between {a x b : Float32} {r s : ℝ} (ha : IsReal a r) (hb : IsReal b s)
    (hax : a ≤ x) (hxb : x ≤ b) : ∃ q, IsReal x q ∧ r ≤ q ∧ q ≤ s := by
  have hlow := Scalar.le_iff.mp hax
  have hhigh := Scalar.le_iff.mp hxb
  obtain ⟨q, hq⟩ := ((value_cases x).resolve_left fun heq =>
    EReal.coe_ne_bot r (le_bot_iff.mp (heq ▸ ha.value_eq ▸ hlow.2.2))).resolve_left fun heq =>
    EReal.coe_ne_top s (top_le_iff.mp (heq ▸ hb.value_eq ▸ hhigh.2.2))
  have hx : IsReal x q := ⟨hlow.2.1, hq⟩
  exact ⟨q, hx, (ha.le_iff hx).mp hax, (hx.le_iff hb).mp hxb⟩

/-- Of two numbers the lesser one is the minimum, infinite or not. -/
theorem value_lesser {a b : Float32} (ha : IsNumber a) (hb : IsNumber b) :
    IsNumber (lesser a b) ∧ value (lesser a b) = min (value a) (value b) := by
  have hnan : a.isNaN = false := ha
  simp only [lesser, hnan, Bool.false_or, decide_eq_true_eq]
  split_ifs with h
  · exact ⟨hb, (min_eq_right (le_iff.mp h).2.2).symm⟩
  · have hlt := (lt_iff.mp ((Scalar.not_le hb ha).mp h)).2.2
    exact ⟨ha, (min_eq_left hlt.le).symm⟩

theorem value_greater {a b : Float32} (ha : IsNumber a) (hb : IsNumber b) :
    IsNumber (greater a b) ∧ value (greater a b) = max (value a) (value b) := by
  have hnan : a.isNaN = false := ha
  simp only [greater, hnan, Bool.false_or, decide_eq_true_eq]
  split_ifs with h
  · exact ⟨hb, (max_eq_right (le_iff.mp h).2.2).symm⟩
  · have hlt := (lt_iff.mp ((Scalar.not_le ha hb).mp h)).2.2
    exact ⟨ha, (max_eq_left hlt.le).symm⟩

theorem le_lesser_iff {a b x : Float32} (ha : IsNumber a) (hb : IsNumber b) :
    x ≤ lesser a b ↔ x ≤ a ∧ x ≤ b := by
  obtain ⟨hnumber, hvalue⟩ := value_lesser ha hb
  simp only [le_iff, hnumber, ha, hb, hvalue, le_min_iff, true_and]
  tauto

theorem greater_le_iff {a b x : Float32} (ha : IsNumber a) (hb : IsNumber b) :
    greater a b ≤ x ↔ a ≤ x ∧ b ≤ x := by
  obtain ⟨hnumber, hvalue⟩ := value_greater ha hb
  simp only [le_iff, hnumber, ha, hb, hvalue, max_le_iff, true_and]
  tauto

theorem lesser_le {a b : Float32} (ha : IsNumber a) (hb : IsNumber b) :
    lesser a b ≤ a ∧ lesser a b ≤ b :=
  (le_lesser_iff ha hb).mp (Scalar.le_refl (value_lesser ha hb).1)

theorem le_greater {a b : Float32} (ha : IsNumber a) (hb : IsNumber b) :
    a ≤ greater a b ∧ b ≤ greater a b :=
  (greater_le_iff ha hb).mp (Scalar.le_refl (value_greater ha hb).1)

theorem IsReal.lesser {a b : Float32} {r s : ℝ} (ha : IsReal a r) (hb : IsReal b s) :
    IsReal (lesser a b) (min r s) := by
  obtain ⟨hnumber, hvalue⟩ := value_lesser ha.isNumber hb.isNumber
  refine ⟨hnumber, ?_⟩
  rw [hvalue, ha.value_eq, hb.value_eq, EReal.coe_strictMono.monotone.map_min]

theorem IsReal.greater {a b : Float32} {r s : ℝ} (ha : IsReal a r) (hb : IsReal b s) :
    IsReal (greater a b) (max r s) := by
  obtain ⟨hnumber, hvalue⟩ := value_greater ha.isNumber hb.isNumber
  refine ⟨hnumber, ?_⟩
  rw [hvalue, ha.value_eq, hb.value_eq, EReal.coe_strictMono.monotone.map_max]

/-- The value that storing an extended real gives. -/
noncomputable def nearest (x : EReal) : EReal :=
  if x = ⊥ ∨ x = ⊤ then x else rounded x.toReal

@[simp]
theorem nearest_bot : nearest ⊥ = ⊥ := if_pos (Or.inl rfl)

@[simp]
theorem nearest_top : nearest ⊤ = ⊤ := if_pos (Or.inr rfl)

@[simp]
theorem nearest_coe (r : ℝ) : nearest r = rounded r := by
  simp [nearest]

theorem nearest_mono {x y : EReal} (h : x ≤ y) : nearest x ≤ nearest y := by
  induction x with
  | bot => simp
  | top => simp [top_le_iff.mp h]
  | coe r =>
      induction y with
      | bot => simp at h
      | top => simp
      | coe s => simpa using rounded_mono (EReal.coe_le_coe_iff.mp h)

@[simp]
theorem nearest_zero : nearest 0 = 0 := by
  rw [← EReal.coe_zero, nearest_coe, rounded_of_nonneg le_rfl, onGrid_zero,
    clip_of_lt (by norm_num)]

theorem nearest_nonneg {x : EReal} (h : 0 ≤ x) : 0 ≤ nearest x := by
  simpa using nearest_mono h

theorem nearest_nonpos {x : EReal} (h : x ≤ 0) : nearest x ≤ 0 := by
  simpa using nearest_mono h

/-- The stored result of an operation is a number, and its value is an extended real
rounded. -/
def StoresExtended (u : UnpackedFloat) (x : EReal) : Prop :=
  (unpack Format.binary32 (pack Format.binary32 u)).isNaN = false ∧
    decoded (unpack Format.binary32 (pack Format.binary32 u)) = nearest x

theorem Stores.extended {u : UnpackedFloat} {r : ℝ} (h : Stores u r) : StoresExtended u r :=
  ⟨h.1, h.2.trans (nearest_coe r).symm⟩

theorem storesExtended_infinity (s : Sign) :
    StoresExtended (.infinity s) (decoded (.infinity s)) := by
  have hunpack : unpack Format.binary32 (pack Format.binary32 (.infinity s)) = .infinity s :=
    unpack_packedInfinity s
  unfold StoresExtended
  rw [hunpack]
  cases s
  · exact ⟨rfl, nearest_bot.symm⟩
  · exact ⟨rfl, nearest_top.symm⟩

theorem IsNumber.cases {x : Float32} (h : IsNumber x) :
    (∃ s, x.toModel.unpack = .infinity s) ∨ ∃ r, IsReal x r := by
  rcases value_cases x with hx | hx | ⟨r, hr⟩
  · exact Or.inl ⟨.negative, unpack_of_value_bot hx⟩
  · exact Or.inl ⟨.positive, unpack_of_value_top hx⟩
  · exact Or.inr ⟨r, h, hr⟩

theorem value_of_infinity {x : Float32} {s : Sign} (h : x.toModel.unpack = .infinity s) :
    value x = decoded (.infinity s) := congrArg decoded h

/-- Values are not rounded. -/
theorem nearest_value {x : Float32} (hx : IsNumber x) : nearest (value x) = value x := by
  rcases hx.cases with ⟨s, hs⟩ | ⟨r, hr⟩
  · rw [value_of_infinity hs]
    cases s
    · exact nearest_bot
    · exact nearest_top
  · rw [hr.value_eq, nearest_coe, hr.rounded_eq]

/-- The sum of two numbers that are not opposite infinities. -/
theorem value_add {a b : Float32} (ha : IsNumber a) (hb : IsNumber b)
    (hbot : value a ≠ ⊥ ∨ value b ≠ ⊤) (htop : value a ≠ ⊤ ∨ value b ≠ ⊥) :
    IsNumber (a + b) ∧ value (a + b) = nearest (value a + value b) := by
  change StoresExtended (UnpackedFloat.add Format.binary32 a.toModel.unpack b.toModel.unpack) _
  rcases ha.cases with ⟨s, hs⟩ | ⟨r, hr⟩
  · rw [value_of_infinity hs] at hbot htop ⊢
    rw [hs]
    rcases hb.cases with ⟨t, ht⟩ | ⟨q, hq⟩
    · rw [value_of_infinity ht] at hbot htop ⊢
      rw [ht]
      cases s <;> cases t <;> simp only [decoded, ne_eq, not_true, or_self] at hbot htop
      · exact storesExtended_infinity .negative
      · exact storesExtended_infinity .positive
    · have hsum :
          UnpackedFloat.add Format.binary32 (.infinity s) b.toModel.unpack = .infinity s := by
        rcases hq.denotes with ⟨t, ht, -⟩ | ⟨t, m, e, hm, ht, -⟩ <;> rw [ht] <;> rfl
      rw [hsum, hq.value_eq]
      cases s
      · exact storesExtended_infinity .negative
      · exact storesExtended_infinity .positive
  · rcases hb.cases with ⟨t, ht⟩ | ⟨q, hq⟩
    · have hsum :
          UnpackedFloat.add Format.binary32 a.toModel.unpack (.infinity t) = .infinity t := by
        rcases hr.denotes with ⟨s, hs, -⟩ | ⟨s, m, e, hm, hs, -⟩ <;> rw [hs] <;> rfl
      rw [ht, hsum, hr.value_eq, value_of_infinity ht]
      cases t
      · exact storesExtended_infinity .negative
      · exact storesExtended_infinity .positive
    · rw [hr.value_eq, hq.value_eq, ← EReal.coe_add]
      exact (hr.denotes.stores_add hq.denotes).extended

theorem ne_notANumber_of_isNaN {u : UnpackedFloat}
    (h : (unpack Format.binary32 (pack Format.binary32 u)).isNaN = false) :
    u ≠ .notANumber := by
  rintro rfl
  cases h

theorem not_isNumber {x : Float32} (h : ¬ IsNumber x) : x.toModel.unpack = .notANumber := by
  have hnan : x.toModel.unpack.isNaN = true := Bool.not_eq_false _ |>.mp h
  cases hx : x.toModel.unpack with
  | notANumber => rfl
  | infinity s => rw [hx] at hnan; cases hnan
  | zero s => rw [hx] at hnan; cases hnan
  | finite s m e hm => rw [hx] at hnan; cases hnan

/-- A sum is a number only where `value_add` tells its value. -/
theorem isNumber_of_add {a b : Float32} (h : IsNumber (a + b)) :
    (IsNumber a ∧ IsNumber b) ∧ (value a ≠ ⊥ ∨ value b ≠ ⊤) ∧ (value a ≠ ⊤ ∨ value b ≠ ⊥) := by
  have hsum : UnpackedFloat.add Format.binary32 a.toModel.unpack b.toModel.unpack ≠ .notANumber :=
    ne_notANumber_of_isNaN h
  refine ⟨⟨?_, ?_⟩, ?_, ?_⟩
  · by_contra hnan
    exact hsum (by rw [not_isNumber hnan]; rfl)
  · by_contra hnan
    refine hsum ?_
    rw [not_isNumber hnan]
    cases a.toModel.unpack <;> rfl
  · rw [← not_and_or]
    rintro ⟨hleft, hright⟩
    exact hsum (by rw [unpack_of_value_bot hleft, unpack_of_value_top hright]; rfl)
  · rw [← not_and_or]
    rintro ⟨hleft, hright⟩
    exact hsum (by rw [unpack_of_value_top hleft, unpack_of_value_bot hright]; rfl)

private theorem value_finite_sign {x : Float32} {s : Sign} {m : ℕ} {e : ℤ} {hm : 0 < m}
    (hx : x.toModel.unpack = .finite s m e hm) : value x = (signed s (magnitude m e) : EReal) := by
  rw [value, hx, decoded_finite]

/-- The product of two numbers, neither of them zero if the other is infinite. -/
theorem value_mul {a b : Float32} (ha : IsNumber a) (hb : IsNumber b)
    (hleft : value a = 0 → value b ≠ ⊥ ∧ value b ≠ ⊤)
    (hright : value b = 0 → value a ≠ ⊥ ∧ value a ≠ ⊤) :
    IsNumber (a * b) ∧ value (a * b) = nearest (value a * value b) := by
  change StoresExtended (UnpackedFloat.mul Format.binary32 a.toModel.unpack b.toModel.unpack) _
  rcases ha.cases with ⟨s, hs⟩ | ⟨r, hr⟩
  · rw [value_of_infinity hs] at hright ⊢
    rw [hs]
    rcases hb.cases with ⟨t, ht⟩ | ⟨q, hq⟩
    · rw [value_of_infinity ht, ht]
      cases s <;> cases t <;>
        simp only [decoded, EReal.bot_mul_bot, EReal.bot_mul_top, EReal.top_mul_bot,
          EReal.top_mul_top]
      · exact storesExtended_infinity .positive
      · exact storesExtended_infinity .negative
      · exact storesExtended_infinity .negative
      · exact storesExtended_infinity .positive
    · rcases hq.denotes with ⟨t, ht, rfl⟩ | ⟨t, m, e, hm, ht, -, -⟩
      · rw [hq.value_eq] at hright
        cases s <;> simp [decoded] at hright
      · have hpos := magnitude_pos hm e
        rw [value_finite_sign ht, ht]
        cases s <;> cases t <;> simp only [decoded, signed]
        · rw [EReal.bot_mul_coe_of_neg (by linarith)]
          exact storesExtended_infinity .positive
        · rw [EReal.bot_mul_coe_of_pos hpos]
          exact storesExtended_infinity .negative
        · rw [EReal.top_mul_coe_of_neg (by linarith)]
          exact storesExtended_infinity .negative
        · rw [EReal.top_mul_coe_of_pos hpos]
          exact storesExtended_infinity .positive
  · rcases hb.cases with ⟨t, ht⟩ | ⟨q, hq⟩
    · rw [value_of_infinity ht] at hleft ⊢
      rcases hr.denotes with ⟨s, hs, rfl⟩ | ⟨s, m, e, hm, hs, -, -⟩
      · rw [hr.value_eq] at hleft
        cases t <;> simp [decoded] at hleft
      · have hpos := magnitude_pos hm e
        rw [value_finite_sign hs, hs, ht]
        cases s <;> cases t <;> simp only [decoded, signed]
        · rw [EReal.coe_mul_bot_of_neg (by linarith)]
          exact storesExtended_infinity .positive
        · rw [EReal.coe_mul_top_of_neg (by linarith)]
          exact storesExtended_infinity .negative
        · rw [EReal.coe_mul_bot_of_pos hpos]
          exact storesExtended_infinity .negative
        · rw [EReal.coe_mul_top_of_pos hpos]
          exact storesExtended_infinity .positive
    · obtain ⟨hnumber, hvalue⟩ := hr.mul hq
      rw [hr.value_eq, hq.value_eq, ← EReal.coe_mul]
      exact Stores.extended ⟨hnumber, hvalue⟩

/-- A product is a number only where `value_mul` tells its value. -/
theorem isNumber_of_mul {a b : Float32} (h : IsNumber (a * b)) :
    (IsNumber a ∧ IsNumber b) ∧ (value a = 0 → value b ≠ ⊥ ∧ value b ≠ ⊤) ∧
      (value b = 0 → value a ≠ ⊥ ∧ value a ≠ ⊤) := by
  have hproduct :
      UnpackedFloat.mul Format.binary32 a.toModel.unpack b.toModel.unpack ≠ .notANumber :=
    ne_notANumber_of_isNaN h
  have hzero {x : Float32} (hx : IsNumber x) (hvalue : value x = 0) :
      ∃ s, x.toModel.unpack = .zero s := by
    rcases IsReal.denotes ⟨hx, hvalue⟩ with ⟨s, hs, -⟩ | ⟨s, m, e, hm, -, -, hr⟩
    · exact ⟨s, hs⟩
    · have hpos := magnitude_pos hm e
      cases s <;> simp only [signed] at hr <;> linarith
  have hnumbers : IsNumber a ∧ IsNumber b := by
    constructor
    · by_contra hnan
      exact hproduct (by rw [not_isNumber hnan]; rfl)
    · by_contra hnan
      refine hproduct ?_
      rw [not_isNumber hnan]
      cases a.toModel.unpack <;> rfl
  refine ⟨hnumbers, ?_, ?_⟩
  · intro hvalue
    obtain ⟨s, hs⟩ := hzero hnumbers.1 hvalue
    constructor
    · intro hb
      exact hproduct (by rw [hs, unpack_of_value_bot hb]; rfl)
    · intro hb
      exact hproduct (by rw [hs, unpack_of_value_top hb]; rfl)
  · intro hvalue
    obtain ⟨s, hs⟩ := hzero hnumbers.2 hvalue
    constructor
    · intro ha
      exact hproduct (by rw [hs, unpack_of_value_bot ha]; rfl)
    · intro ha
      exact hproduct (by rw [hs, unpack_of_value_top ha]; rfl)

end Scalar

end Broadphase
