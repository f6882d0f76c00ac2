import Mathlib
import Broadphase.Config
import Broadphase.Tree.Layout
import Broadphase.Proofs.Box
import Broadphase.Proofs.Scalar.Midpoint

/-!
Boxes and their children, one axis at a time. A layout splits some of the axes,
and the bit of a child's number for a split axis selects a half of the parent
there. A box inside a node whose corners belong to the same child is inside that
child, and a point inside a child and inside of the world is inside the parent.
The converse fails on split planes: a plane belongs to both closed halves, but
its points are numbered with the high one.
-/

namespace Broadphase

open Scalar

namespace Box

theorem center_along (b : Box) (axis : Vec3.Axis) :
    b.center.along axis = midpoint (b.min.along axis) (b.max.along axis) := by
  cases axis <;> rfl

/-- A box whose interval on every axis is tame within that of the world. -/
def Tame (world b : Box) : Prop :=
  ∀ axis, Scalar.Tame (world.min.along axis) (world.max.along axis) (b.min.along axis)
    (b.max.along axis)

def Moderate (b : Box) : Prop := ∀ axis, Scalar.Moderate (b.min.along axis) (b.max.along axis)

theorem Moderate.isReal {b : Box} (h : b.Moderate) : b.IsReal := by
  refine ⟨fun axis => ?_, fun axis => ?_⟩
  · obtain ⟨lo, -, hlo, -⟩ := (h axis).exists_ends
    exact ⟨lo, hlo⟩
  · obtain ⟨-, hi, -, hhi, -⟩ := (h axis).exists_ends
    exact ⟨hi, hhi⟩

/-- A box that a world may have. -/
structure Acceptable (world : Box) : Prop where
  min_finite : ∀ axis, (world.min.along axis).isFinite = true
  max_finite : ∀ axis, (world.max.along axis).isFinite = true
  ordered : world.Ordered

theorem Acceptable.tame {world : Box} (h : world.Acceptable) : Tame world world :=
  fun axis => tame_self (h.min_finite axis) (h.max_finite axis) (h.ordered axis)

theorem Acceptable.isReal {world : Box} {p : Vec3} (h : world.Acceptable)
    (hp : world.containsPoint p = true) (axis : Vec3.Axis) :
    ∃ r, Scalar.IsReal (p.along axis) r := by
  obtain ⟨a, ha⟩ := Scalar.isReal_of_isFinite (h.min_finite axis)
  obtain ⟨b, hb⟩ := Scalar.isReal_of_isFinite (h.max_finite axis)
  obtain ⟨hmin, hmax⟩ := containsPoint_iff.mp hp axis
  obtain ⟨r, hr, -, -⟩ := ha.between hb hmin hmax
  exact ⟨r, hr⟩

end Box

namespace Layout

variable {layout : Layout}

theorem arity_pos (layout : Layout) : 0 < layout.arity := by
  cases layout <;> decide

/-- The bit of a child's number that belongs to an axis, if the layout splits it. -/
def bit? (layout : Layout) (axis : Vec3.Axis) : Option Nat :=
  match layout, axis with
  | .quad, .x => some 0
  | .quad, .y => none
  | .quad, .z => some 1
  | .oct, .x => some 0
  | .oct, .y => some 1
  | .oct, .z => some 2

theorem side_le_one (center p : Float32) : side center p ≤ 1 := by
  unfold side
  split <;> omega

theorem childIndex_lt_arity (center p : Vec3) : layout.childIndex center p < layout.arity := by
  have hx := side_le_one center.x p.x
  have hy := side_le_one center.y p.y
  have hz := side_le_one center.z p.z
  cases layout <;> simp only [childIndex, arity] <;> omega

private theorem side_eq_one_iff {center p : Float32} : side center p = 1 ↔ center ≤ p := by
  unfold side
  split <;> simp_all

/-- On an axis that is split, a point's bit tells whether it is on the high side. -/
theorem testBit_childIndex {center p : Vec3} {axis : Vec3.Axis} {k : Nat}
    (hbit : layout.bit? axis = some k) :
    (layout.childIndex center p).testBit k = true ↔ center.along axis ≤ p.along axis := by
  have hx := side_le_one center.x p.x
  have hy := side_le_one center.y p.y
  have hz := side_le_one center.z p.z
  have hdigit {n : Nat} (hn : n / 2 ^ k % 2 = side (center.along axis) (p.along axis)) :
      n.testBit k = true ↔ center.along axis ≤ p.along axis := by
    rw [Nat.testBit_eq_decide_div_mod_eq, decide_eq_true_eq, hn, side_eq_one_iff]
  refine hdigit ?_
  cases layout <;> cases axis <;> simp only [bit?, Option.some.injEq, reduceCtorEq] at hbit <;>
    subst hbit <;> simp only [childIndex, Vec3.along] <;> omega

/-- A number below the arity is determined by its bits for the split axes. -/
theorem eq_of_testBit {m n : Nat} (hm : m < layout.arity) (hn : n < layout.arity)
    (h : ∀ axis k, layout.bit? axis = some k → m.testBit k = n.testBit k) : m = n := by
  cases layout with
  | quad =>
      have h0 := h .x 0 rfl
      have h1 := h .z 1 rfl
      simp only [Nat.testBit_eq_decide_div_mod_eq, decide_eq_decide] at h0 h1
      simp only [arity] at hm hn
      omega
  | oct =>
      have h0 := h .x 0 rfl
      have h1 := h .y 1 rfl
      have h2 := h .z 2 rfl
      simp only [Nat.testBit_eq_decide_div_mod_eq, decide_eq_decide] at h0 h1 h2
      simp only [arity] at hm hn
      omega

/-- The interval of a child on an axis: a half where the layout splits, and the
parent's interval elsewhere. -/
theorem childBounds_along (layout : Layout) (b : Box) (center : Vec3) (child : Nat)
    (axis : Vec3.Axis) :
    ((layout.childBounds b center child).min.along axis,
        (layout.childBounds b center child).max.along axis) =
      match layout.bit? axis with
      | some k =>
          half (!child.testBit k) (b.min.along axis) (center.along axis) (b.max.along axis)
      | none => (b.min.along axis, b.max.along axis) := by
  cases layout <;> cases axis <;> rfl

theorem childBounds_cases (layout : Layout) (b : Box) (child : Nat) (axis : Vec3.Axis) :
    (layout.bit? axis = none ∧
        (layout.childBounds b b.center child).min.along axis = b.min.along axis ∧
        (layout.childBounds b b.center child).max.along axis = b.max.along axis) ∨
      (∃ k, layout.bit? axis = some k ∧ child.testBit k = false ∧
        (layout.childBounds b b.center child).min.along axis = b.min.along axis ∧
        (layout.childBounds b b.center child).max.along axis =
          midpoint (b.min.along axis) (b.max.along axis)) ∨
      (∃ k, layout.bit? axis = some k ∧ child.testBit k = true ∧
        (layout.childBounds b b.center child).min.along axis =
          midpoint (b.min.along axis) (b.max.along axis) ∧
        (layout.childBounds b b.center child).max.along axis = b.max.along axis) := by
  have hends := childBounds_along layout b b.center child axis
  rw [Box.center_along] at hends
  cases hbit : layout.bit? axis with
  | none =>
      simp only [hbit, Prod.mk.injEq] at hends
      exact Or.inl ⟨rfl, hends⟩
  | some k =>
      cases htest : child.testBit k with
      | false =>
          simp only [hbit, htest, half, Bool.not_false, if_true, Prod.mk.injEq] at hends
          exact Or.inr (Or.inl ⟨k, rfl, htest, hends⟩)
      | true =>
          simp only [hbit, htest, half, Bool.not_true, Bool.false_eq_true, if_false,
            Prod.mk.injEq] at hends
          exact Or.inr (Or.inr ⟨k, rfl, htest, hends⟩)

theorem tame_childBounds {world b : Box} (h : Box.Tame world b) (child : Nat) :
    Box.Tame world (layout.childBounds b b.center child) := by
  intro axis
  rcases childBounds_cases layout b child axis with
    ⟨-, hmin, hmax⟩ | ⟨k, -, -, hmin, hmax⟩ | ⟨k, -, -, hmin, hmax⟩
  · rw [hmin, hmax]
    exact h axis
  · rw [hmin, hmax]
    exact (h axis).low
  · rw [hmin, hmax]
    exact (h axis).high

theorem sharedChild?_eq_some {center : Vec3} {b : Box} {child : Nat} :
    layout.sharedChild? center b = some child ↔
      layout.childIndex center b.min = child ∧ layout.childIndex center b.max = child := by
  simp only [sharedChild?]
  split_ifs with h
  · rw [Option.some.injEq, ← h, and_self]
  · simp only [false_iff, not_and]
    rintro rfl
    exact fun heq => h heq.symm

theorem sharedChild?_lt_arity {center : Vec3} {b : Box} {child : Nat}
    (h : layout.sharedChild? center b = some child) : child < layout.arity :=
  (sharedChild?_eq_some.mp h).1 ▸ childIndex_lt_arity center b.min

/-- A box inside a node with both corners in one child is inside that child. -/
theorem contains_childBounds {world b o : Box} {child : Nat} (htame : Box.Tame world b)
    (hcontains : b.contains o = true) (hshared : layout.sharedChild? b.center o = some child) :
    (layout.childBounds b b.center child).contains o = true := by
  obtain ⟨hlow, hhigh⟩ := sharedChild?_eq_some.mp hshared
  rw [Box.contains_iff] at hcontains ⊢
  intro axis
  obtain ⟨hleft, hright⟩ := hcontains axis
  rcases childBounds_cases layout b child axis with
    ⟨-, hmin, hmax⟩ | ⟨k, hbit, htest, hmin, hmax⟩ | ⟨k, hbit, htest, hmin, hmax⟩
  · rw [hmin, hmax]
    exact ⟨hleft, hright⟩
  · rw [hmin, hmax]
    refine ⟨hleft, ?_⟩
    have hnot : ¬ b.center.along axis ≤ o.max.along axis := by
      rw [← testBit_childIndex hbit, hhigh, htest]
      exact Bool.false_ne_true
    rw [Box.center_along, Scalar.not_le (htame axis).midpoint_isNumber (le_iff.mp hright).1] at hnot
    exact Scalar.le_of_lt hnot
  · rw [hmin, hmax]
    refine ⟨?_, hright⟩
    rw [← Box.center_along, ← testBit_childIndex hbit, hlow]
    exact htest

/-- A point that is in a child and in the world is in the parent. -/
theorem containsPoint_parent {world b : Box} {p : Vec3} {child : Nat} (hworld : world.Acceptable)
    (htame : Box.Tame world b) (hp : world.containsPoint p = true)
    (hchild : (layout.childBounds b b.center child).containsPoint p = true) :
    b.containsPoint p = true := by
  rw [Box.containsPoint_iff] at hchild ⊢
  intro axis
  obtain ⟨r, hr⟩ := hworld.isReal hp axis
  obtain ⟨hfirst, hlast⟩ := Box.containsPoint_iff.mp hp axis
  obtain ⟨hleft, hright⟩ := hchild axis
  rcases childBounds_cases layout b child axis with
    ⟨-, hmin, hmax⟩ | ⟨k, -, -, hmin, hmax⟩ | ⟨k, -, -, hmin, hmax⟩
  · rw [hmin] at hleft
    rw [hmax] at hright
    exact ⟨hleft, hright⟩
  · rw [hmin] at hleft
    rw [hmax] at hright
    exact ⟨hleft, (htame axis).le_of_low hr hlast hleft hright⟩
  · rw [hmin] at hleft
    rw [hmax] at hright
    exact ⟨(htame axis).le_of_high hr hfirst hright hleft, hright⟩

/-- A point is numbered with a child that contains it unless it lies on a split
plane of which the child is the low side. -/
theorem childIndex_eq_iff {b : Box} {p : Vec3} {child : Nat} (hlt : child < layout.arity)
    (hchild : (layout.childBounds b b.center child).containsPoint p = true) :
    layout.childIndex b.center p = child ↔
      ∀ axis k, layout.bit? axis = some k → child.testBit k = false →
        ¬ b.center.along axis ≤ p.along axis := by
  constructor
  · rintro rfl axis k hbit htest
    rw [← testBit_childIndex hbit, htest]
    exact Bool.false_ne_true
  · intro h
    refine eq_of_testBit (childIndex_lt_arity _ _) hlt ?_
    intro axis k hbit
    rcases childBounds_cases layout b child axis with
      ⟨hnone, -⟩ | ⟨k', hbit', htest, -, -⟩ | ⟨k', hbit', htest, hmin, -⟩
    · exact absurd (hnone.symm.trans hbit) (Option.some_ne_none k).symm
    · obtain rfl : k = k' := Option.some.inj (hbit.symm.trans hbit')
      rw [htest, ← Bool.not_eq_true, testBit_childIndex hbit]
      exact h axis k hbit htest
    · obtain rfl : k = k' := Option.some.inj (hbit.symm.trans hbit')
      rw [htest, testBit_childIndex hbit, Box.center_along, ← hmin]
      exact (Box.containsPoint_iff.mp hchild axis).1

/-- The points of a box whose corners are in one child are in that child too. -/
theorem childIndex_of_sharedChild? {center : Vec3} {b : Box} {p : Vec3} {child : Nat}
    (hshared : layout.sharedChild? center b = some child) (hp : b.containsPoint p = true) :
    layout.childIndex center p = child := by
  obtain ⟨hlow, hhigh⟩ := sharedChild?_eq_some.mp hshared
  apply eq_of_testBit (childIndex_lt_arity _ _) (sharedChild?_lt_arity hshared)
  intro axis k hbit
  obtain ⟨hmin, hmax⟩ := Box.containsPoint_iff.mp hp axis
  rw [Bool.eq_iff_iff, testBit_childIndex hbit]
  constructor
  · intro hle
    rw [← hhigh, testBit_childIndex hbit]
    exact Scalar.le_trans hle hmax
  · intro htest
    rw [← hlow, testBit_childIndex hbit] at htest
    exact Scalar.le_trans htest hmin

theorem moderate_childBounds (layout : Layout) {b : Box} (h : b.Moderate) (child : Nat) :
    b.contains (layout.childBounds b b.center child) = true ∧
      (layout.childBounds b b.center child).Moderate := by
  have haxis (axis : Vec3.Axis) :
      (b.min.along axis ≤ (layout.childBounds b b.center child).min.along axis ∧
        (layout.childBounds b b.center child).max.along axis ≤ b.max.along axis) ∧
      Scalar.Moderate ((layout.childBounds b b.center child).min.along axis)
        ((layout.childBounds b b.center child).max.along axis) := by
    obtain ⟨⟨hlo, hhi⟩, hlow, hhigh⟩ := (h axis).halves
    have hmin := Scalar.le_refl (le_iff.mp hlo).1
    have hmax := Scalar.le_refl (le_iff.mp hhi).2.1
    rcases childBounds_cases layout b child axis with
      ⟨-, heqmin, heqmax⟩ | ⟨k, -, -, heqmin, heqmax⟩ | ⟨k, -, -, heqmin, heqmax⟩
    · rw [heqmin, heqmax]
      exact ⟨⟨hmin, hmax⟩, h axis⟩
    · rw [heqmin, heqmax]
      exact ⟨⟨hmin, hhi⟩, hlow⟩
    · rw [heqmin, heqmax]
      exact ⟨⟨hlo, hmax⟩, hhigh⟩
  exact ⟨Box.contains_iff.mpr fun axis => (haxis axis).1, fun axis => (haxis axis).2⟩

private theorem isFinite_zero : (0 : Float32).isFinite = true := rfl

theorem zero_le_zero : (0 : Float32) ≤ 0 := by
  decide +kernel

theorem acceptable_project {world : Box} (h : world.Acceptable) :
    (layout.project world).Acceptable := by
  have haxis (axis : Vec3.Axis) :
      ((layout.project world).min.along axis).isFinite = true ∧
        ((layout.project world).max.along axis).isFinite = true ∧
        (layout.project world).min.along axis ≤ (layout.project world).max.along axis := by
    have hreal := And.intro (h.min_finite axis) (And.intro (h.max_finite axis) (h.ordered axis))
    cases layout <;> cases axis <;>
      first | exact hreal | exact ⟨isFinite_zero, isFinite_zero, zero_le_zero⟩
  exact ⟨fun axis => (haxis axis).1, fun axis => (haxis axis).2.1, fun axis => (haxis axis).2.2⟩

end Layout

end Broadphase
