import Mathlib
import Broadphase.Proofs.Box
import Broadphase.Proofs.Tree.Invariant

/-!
The range of heights that a tree keeps for culling. Only updates widen it and only
clearing forgets it, so it encloses the heights of everything tracked, and of more:
a removed or moved entity leaves its heights behind.
-/

namespace Broadphase

namespace Tree

variable {layout : Layout} {t : Tree layout} {span : Option Layout.HeightSpan}
  {boxes : Handle → Option Box}

/-- The range of heights is finite, and encloses the heights of some boxes. -/
structure Encloses (span : Option Layout.HeightSpan) (boxes : Handle → Option Box) : Prop where
  isReal : ∀ s, span = some s →
    (∃ r, Scalar.IsReal s.low r) ∧ ∃ r, Scalar.IsReal s.high r
  encloses : ∀ e box, boxes e = some box →
    ∃ s, span = some s ∧ s.low ≤ box.min.y ∧ box.max.y ≤ s.high

/-- Widening encloses the new box and what was enclosed before. -/
theorem widen_encloses (hspan : ∀ s, span = some s →
      (∃ r, Scalar.IsReal s.low r) ∧ ∃ r, Scalar.IsReal s.high r) {b : Box} (hb : b.IsReal) :
    ((∃ r, Scalar.IsReal (widen span b).low r) ∧ ∃ r, Scalar.IsReal (widen span b).high r) ∧
      ((widen span b).low ≤ b.min.y ∧ b.max.y ≤ (widen span b).high) ∧
      ∀ s, span = some s → (widen span b).low ≤ s.low ∧ s.high ≤ (widen span b).high := by
  obtain ⟨r, hr⟩ : ∃ r, Scalar.IsReal b.min.y r := hb.min .y
  obtain ⟨q, hq⟩ : ∃ q, Scalar.IsReal b.max.y q := hb.max .y
  cases span with
  | none =>
      refine ⟨⟨⟨r, hr⟩, q, hq⟩, ⟨Scalar.le_refl hr.isNumber, Scalar.le_refl hq.isNumber⟩, ?_⟩
      intro s hs
      cases hs
  | some s =>
      obtain ⟨⟨l, hl⟩, h, hh⟩ := hspan s rfl
      have hlow := hl.lesser hr
      have hhigh := hh.greater hq
      obtain ⟨hbefore, hnew⟩ := Scalar.lesser_le hl.isNumber hr.isNumber
      obtain ⟨hbefore', hnew'⟩ := Scalar.le_greater hh.isNumber hq.isNumber
      refine ⟨⟨⟨_, hlow⟩, _, hhigh⟩, ⟨hnew, hnew'⟩, ?_⟩
      rintro s' hs
      obtain rfl := Option.some.inj hs
      exact ⟨hbefore, hbefore'⟩

theorem Encloses.step (h : Encloses span boxes) {change : Change}
    (hfinite : FiniteBoxes [change]) :
    Encloses (heightsAfter span change) (change.track boxes) := by
  cases change with
  | update e position bounds =>
      obtain ⟨hreal, hself, hmore⟩ := widen_encloses h.isReal
        (Box.isReal_of_isFinite (hfinite e position bounds List.mem_cons_self))
      refine ⟨?_, ?_⟩
      · intro s hs
        obtain rfl := Option.some.inj hs
        exact hreal
      · intro other box hbox
        refine ⟨_, rfl, ?_⟩
        simp only [Change.track] at hbox
        split_ifs at hbox
        · obtain rfl := Option.some.inj hbox
          exact hself
        · obtain ⟨s, hs, hlow, hhigh⟩ := h.encloses other box hbox
          obtain ⟨hlow', hhigh'⟩ := hmore s hs
          exact ⟨Scalar.le_trans hlow' hlow, Scalar.le_trans hhigh hhigh'⟩
  | remove e =>
      refine ⟨h.isReal, ?_⟩
      intro other box hbox
      simp only [Change.track] at hbox
      split_ifs at hbox
      exact h.encloses other box hbox
  | clear => exact ⟨fun s hs => (Option.some_ne_none s hs.symm).elim,
      fun e box hbox => (Option.some_ne_none box hbox.symm).elim⟩

theorem encloses_run (h : t.WellFormed) (henclosed : Encloses t.span t.boxOf)
    {changes : List Change} (hfinite : FiniteBoxes changes) :
    Encloses (SpatialIndex.run t changes).span (SpatialIndex.run t changes).boxOf := by
  induction changes generalizing t with
  | nil => exact henclosed
  | cons change changes ih =>
      obtain ⟨t', events, hstep, hwell, -, hbox, hspan, -⟩ := exists_step h change
      rw [SpatialIndex.run_cons, apply_of_step hstep]
      refine ih hwell ?_ fun e position bounds hmem =>
        hfinite e position bounds (List.mem_cons_of_mem change hmem)
      rw [hspan, funext hbox]
      refine henclosed.step ?_
      intro e position bounds hmem
      rw [List.mem_singleton] at hmem
      exact hfinite e position bounds (hmem ▸ List.mem_cons_self)

/-- After any changes with finite boxes the range of heights encloses all boxes tracked. -/
theorem encloses_of_create {config : TreeConfig} (hcreate : (create layout config).1 = .ok t)
    {changes : List Change} (hfinite : FiniteBoxes changes) :
    Encloses (SpatialIndex.run t changes).span (trackedBoxes changes) := by
  obtain ⟨-, -, hbox⟩ := wellFormed_of_create hcreate changes
  obtain ⟨rfl, hworld⟩ := eq_empty_of_create hcreate
  rw [← hbox]
  refine encloses_run (wellFormed_empty hworld) ⟨?_, ?_⟩ hfinite
  · intro s hs
    exact (Option.some_ne_none s hs.symm).elim
  · intro e box hrecord
    obtain ⟨slot, hslot⟩ := exists_record hrecord
    cases Std.ExtTreeMap.getElem?_empty.symm.trans hslot

end Tree

end Broadphase
