import Mathlib
import Broadphase.Proofs.Scalar.Extended

/-!
Sums and products keep the order of what they are made of. Rounding may make two results equal
and never exchanges them, so where both results are numbers nothing else is asked of the
operands. What needs care is a result that is no number, the product of zero and an infinity
or the sum of opposite infinities. For products with finite numbers, and for sums of such
products, a result that is a number can be told to be one from another result: from a result
above it that is not the greatest value, or from one below it that is not the least.
-/

namespace Broadphase

namespace Scalar

variable {a b c d n x y : Float32}

/-- The first of two numbers is not above the second. Nothing is said of what is no number. -/
def NotAbove (a b : Float32) : Prop := IsNumber a → IsNumber b → value a ≤ value b

theorem notAbove_self (a : Float32) : NotAbove a a := fun _ _ => le_rfl

theorem NotAbove.add (h : NotAbove a b) (h' : NotAbove c d) : NotAbove (a + c) (b + d) := by
  intro hleft hright
  obtain ⟨⟨ha, hc⟩, hbot, htop⟩ := isNumber_of_add hleft
  obtain ⟨⟨hb, hd⟩, hbot', htop'⟩ := isNumber_of_add hright
  rw [(value_add ha hc hbot htop).2, (value_add hb hd hbot' htop').2]
  exact nearest_mono (add_le_add (h ha hb) (h' hc hd))

/-- The coordinate `y` is `x`, or lies farther along the sign of a coefficient. -/
def Along (n x y : Float32) : Prop := (0 ≤ n ∧ x ≤ y) ∨ (¬ 0 ≤ n ∧ y ≤ x)

theorem Along.mul_le (h : Along n x y) (hn : IsNumber n) :
    value n * value x ≤ value n * value y := by
  have hsign : 0 ≤ n ↔ 0 ≤ value n := by
    rw [le_iff, isReal_zero.value_eq, EReal.coe_zero]
    exact ⟨fun h => h.2.2, fun h => ⟨isReal_zero.isNumber, hn, h⟩⟩
  rw [Along, hsign, not_le] at h
  rcases h with ⟨hpos, hle⟩ | ⟨hneg, hle⟩
  · exact mul_le_mul_of_nonneg_left (le_iff.mp hle).2.2 hpos
  · have hflip := mul_le_mul_of_nonneg_left (le_iff.mp hle).2.2 (EReal.neg_nonneg.mpr hneg.le)
    rwa [neg_mul, neg_mul, EReal.neg_le_neg_iff] at hflip

theorem notAbove_mul (h : Along n x y) : NotAbove (n * x) (n * y) := by
  intro hleft hright
  obtain ⟨⟨hn, hx⟩, hzero, hinfinite⟩ := isNumber_of_mul hleft
  obtain ⟨⟨-, hy⟩, hzero', hinfinite'⟩ := isNumber_of_mul hright
  rw [(value_mul hn hx hzero hinfinite).2, (value_mul hn hy hzero' hinfinite').2]
  exact nearest_mono (h.mul_le hn)

/-- The first of two results is not above the second, and each of them is a number if the other
one is, apart from an infinity with which this says nothing. -/
structure Below (a b : Float32) : Prop where
  notAbove : NotAbove a b
  left : IsNumber b → value b ≠ ⊤ → IsNumber a
  right : IsNumber a → value a ≠ ⊥ → IsNumber b

theorem below_self (a : Float32) : Below a a := ⟨notAbove_self a, fun h _ => h, fun h _ => h⟩

theorem Below.ne_top (h : Below a b) (hb : IsNumber b) (htop : value b ≠ ⊤) : value a ≠ ⊤ :=
  ne_top_of_le_ne_top htop (h.notAbove (h.left hb htop) hb)

theorem Below.ne_bot (h : Below a b) (ha : IsNumber a) (hbot : value a ≠ ⊥) : value b ≠ ⊥ :=
  ne_bot_of_le_ne_bot hbot (h.notAbove ha (h.right ha hbot))

/-- A sum that is not the greatest value has no part that is. -/
theorem ne_top_of_add (h : IsNumber (a + b)) (htop : value (a + b) ≠ ⊤) :
    value a ≠ ⊤ ∧ value b ≠ ⊤ := by
  obtain ⟨⟨ha, hb⟩, hbot, hopposite⟩ := isNumber_of_add h
  rw [(value_add ha hb hbot hopposite).2] at htop
  constructor
  · intro heq
    rw [heq, EReal.top_add_of_ne_bot (hopposite.resolve_left (· heq)), nearest_top] at htop
    exact htop rfl
  · intro heq
    rw [heq, EReal.add_top_of_ne_bot (hbot.resolve_right (· heq)), nearest_top] at htop
    exact htop rfl

/-- A sum that is not the least value has no part that is. -/
theorem ne_bot_of_add (h : IsNumber (a + b)) (hbot : value (a + b) ≠ ⊥) :
    value a ≠ ⊥ ∧ value b ≠ ⊥ := by
  obtain ⟨⟨ha, hb⟩, hopposite, htop⟩ := isNumber_of_add h
  rw [(value_add ha hb hopposite htop).2] at hbot
  constructor
  · intro heq
    rw [heq, EReal.bot_add, nearest_bot] at hbot
    exact hbot rfl
  · intro heq
    rw [heq, EReal.add_bot, nearest_bot] at hbot
    exact hbot rfl

theorem Below.add (h : Below a b) (h' : Below c d) : Below (a + c) (b + d) := by
  refine ⟨h.notAbove.add h'.notAbove, ?_, ?_⟩
  · intro hnumber htop
    obtain ⟨hb, hd⟩ := (isNumber_of_add hnumber).1
    obtain ⟨hfirst, hsecond⟩ := ne_top_of_add hnumber htop
    exact (value_add (h.left hb hfirst) (h'.left hd hsecond)
      (Or.inr (h'.ne_top hd hsecond)) (Or.inl (h.ne_top hb hfirst))).1
  · intro hnumber hbot
    obtain ⟨ha, hc⟩ := (isNumber_of_add hnumber).1
    obtain ⟨hfirst, hsecond⟩ := ne_bot_of_add hnumber hbot
    exact (value_add (h.right ha hfirst) (h'.right hc hsecond)
      (Or.inl (h.ne_bot ha hfirst)) (Or.inr (h'.ne_bot hc hsecond))).1

section Products

variable {r q : ℝ}

/-- A product with a finite number is no number only for zero times an infinity. -/
theorem zero_times_infinity (hn : IsNumber n) (hx : IsReal x r) (h : ¬ IsNumber (n * x)) :
    value x = 0 ∧ (value n = ⊥ ∨ value n = ⊤) := by
  have hfinite : value x ≠ ⊥ ∧ value x ≠ ⊤ := by
    rw [hx.value_eq]
    exact ⟨EReal.coe_ne_bot r, EReal.coe_ne_top r⟩
  by_contra hnot
  refine h (value_mul hn hx.isNumber (fun _ => hfinite) ?_).1
  intro hzero
  rw [not_and, not_or] at hnot
  exact hnot hzero

/-- An infinite coefficient leaves only the infinities. -/
theorem value_mul_infinite (hinfinite : value n = ⊥ ∨ value n = ⊤) (hy : IsReal y q)
    (h : IsNumber (n * y)) : value (n * y) = ⊥ ∨ value (n * y) = ⊤ := by
  obtain ⟨⟨hn, hnumber⟩, hleft, hright⟩ := isNumber_of_mul h
  have hq : q ≠ 0 := by
    rintro rfl
    have hzero := hright hy.value_eq
    tauto
  rw [(value_mul hn hnumber hleft hright).2, hy.value_eq]
  rcases hinfinite with hbot | htop
  · rcases lt_or_gt_of_ne hq with hneg | hpos
    · rw [hbot, EReal.bot_mul_coe_of_neg hneg, nearest_top]
      exact Or.inr rfl
    · rw [hbot, EReal.bot_mul_coe_of_pos hpos, nearest_bot]
      exact Or.inl rfl
  · rcases lt_or_gt_of_ne hq with hneg | hpos
    · rw [htop, EReal.top_mul_coe_of_neg hneg, nearest_bot]
      exact Or.inl rfl
    · rw [htop, EReal.top_mul_coe_of_pos hpos, nearest_top]
      exact Or.inr rfl

/-- A coefficient times a finite coordinate is below its product with one that lies farther along
its sign. Where one product is no number, the other one is the infinity on its own side of
zero. -/
theorem below_mul (hx : IsReal x r) (hy : IsReal y q) (h : Along n x y) :
    Below (n * x) (n * y) := by
  refine ⟨notAbove_mul h, ?_, ?_⟩
  · intro hnumber htop
    obtain ⟨⟨hn, hynumber⟩, hleft, hright⟩ := isNumber_of_mul hnumber
    by_contra hnot
    obtain ⟨hzero, hinfinite⟩ := zero_times_infinity hn hx hnot
    have hle := h.mul_le hn
    rw [hzero, mul_zero] at hle
    have hnonneg := nearest_nonneg hle
    rw [← (value_mul hn hynumber hleft hright).2] at hnonneg
    rcases value_mul_infinite hinfinite hy hnumber with hvalue | hvalue
    · rw [hvalue] at hnonneg
      exact absurd hnonneg (by simp)
    · exact htop hvalue
  · intro hnumber hbot
    obtain ⟨⟨hn, hxnumber⟩, hleft, hright⟩ := isNumber_of_mul hnumber
    by_contra hnot
    obtain ⟨hzero, hinfinite⟩ := zero_times_infinity hn hy hnot
    have hle := h.mul_le hn
    rw [hzero, mul_zero] at hle
    have hnonpos := nearest_nonpos hle
    rw [← (value_mul hn hxnumber hleft hright).2] at hnonpos
    rcases value_mul_infinite hinfinite hx hnumber with hvalue | hvalue
    · exact hbot hvalue
    · rw [hvalue] at hnonpos
      exact absurd hnonpos (by simp)

end Products

end Scalar

end Broadphase
