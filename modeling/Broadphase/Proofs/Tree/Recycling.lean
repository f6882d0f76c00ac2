import Mathlib
import Broadphase.Proofs.Tree.Pooling
import Broadphase.Proofs.Tree.Safety

/-!
A tree that was cleared is like a new one. It keeps the slots of all its blocks, with whatever
was in them, where a new tree has none. But clearing retires the blocks in such an order that
they are handed out again like new ones, and laying out a block writes all of its slots. So
the same changes do the same to both trees, in the same slots and blocks.
-/

namespace Broadphase

section Identity

variable {layout : Layout}

@[simp]
theorem Layout.renameSlot_id (slot : Nat) : layout.renameSlot id slot = slot := by
  by_cases hslot : slot = rootSlot
  · rw [hslot, renameSlot_root]
  · have hdivide := Nat.div_add_mod' (slot - 1) layout.arity
    rw [renameSlot, if_neg hslot, id, firstSlot]
    unfold rootSlot at hslot
    omega

theorem TreeEvent.rename_id (event : TreeEvent) : event.rename layout id = event := by
  cases event <;> simp [rename]

end Identity

namespace Tree

variable {layout : Layout} {t u : Tree layout}

/-- Both trees use the same blocks and report the same. The pool of the second may have spare
blocks where that of the first makes new ones. -/
def recycled (layout : Layout) : Coupling layout where
  pools ρ p q := ρ = id ∧ p.Ahead q
  reports event event' := event = event'
  alloc := by
    rintro _ p q ⟨rfl, hahead⟩
    obtain ⟨hblock, hnext⟩ := hahead.alloc
    rw [hblock]
    exact ⟨Function.update_eq_self _ _, hnext⟩
  free := by
    rintro _ p q p' q' block ⟨rfl, hahead⟩ huse hfree hfree'
    exact ⟨rfl, hahead.free huse hfree hfree'⟩
  report := by
    rintro _ p q event ⟨rfl, -⟩
    exact (TreeEvent.rename_id event).symm

/-- A new tree and a cleared one. -/
theorem recycled_clear {config : TreeConfig} (hworld : config.world.Acceptable)
    (h : u.WellFormed) (hconfig : u.config = config) :
    Coupled (recycled layout) id (empty config) u.clear := by
  have hnew : (empty config : Tree layout).WellFormed := wellFormed_empty hworld
  refine ⟨?_, rfl, ?_⟩
  · apply Mirrors.of_unused hnew (wellFormed_clear h).1
    · change { u.config with pooling := config.pooling } = config
      rw [hconfig]
    · rfl
    · exact fun block huse => Nat.not_lt_zero block huse.1
    · exact not_inUse_clear h.arena
    · exact fun _ => Std.ExtTreeMap.getElem?_empty
    · exact fun _ => Std.ExtTreeMap.getElem?_empty
  · have hpooling := h.arena.pooling_eq
    change (BlockPool.empty config.pooling).Ahead
      (if u.config.pooling then u.pool.releaseAll else u.pool.reset)
    rw [← hconfig]
    split_ifs with hkeeps
    · rw [hkeeps] at hpooling ⊢
      exact BlockPool.ahead_releaseAll hpooling
    · rw [BlockPool.reset, hpooling]
      exact .refl _

/-- Changes of entities one after the other do the same to both trees. -/
theorem exists_tryRun_recycled {ρ : Nat → Nat} (h : Coupled (recycled layout) ρ t u)
    {changes : List Change} (hkeeps : .clear ∉ changes) :
    ∃ ρ' events, t.tryRun changes = .ok (SpatialIndex.run t changes, events) ∧
      u.tryRun changes = .ok (SpatialIndex.run u changes, events) ∧
      Mirrors ρ' (SpatialIndex.run t changes) (SpatialIndex.run u changes) := by
  induction changes generalizing ρ t u with
  | nil => exact ⟨ρ, [], rfl, rfl, h.mirrors⟩
  | cons change changes ih =>
      rw [List.mem_cons, not_or] at hkeeps
      obtain ⟨t', events, hstep, htransition⟩ := exists_transition h.mirrors.left change
      obtain ⟨u', events', hstep', htransition'⟩ := exists_transition h.mirrors.right change
      obtain ⟨ρ', hcoupled, hreports⟩ :=
        h.transition (Ne.symm hkeeps.1) htransition htransition'
      obtain rfl : events = events' := List.forall₂_eq_eq_eq ▸ hreports
      obtain ⟨ρ'', more, hrun, hrun', hresult⟩ := ih hcoupled hkeeps.2
      rw [SpatialIndex.run_cons, SpatialIndex.run_cons, apply_of_step hstep, apply_of_step hstep']
      exact ⟨ρ'', events ++ more, tryRun_cons hstep hrun, tryRun_cons hstep' hrun', hresult⟩

/-- After a tree was cleared it cannot be told from a new one, as long as only entities are
updated and removed. No change fails; the same divisions and merges happen in the same slots,
at the same depths and with the same blocks, and the same is reported about them. No query
fails, and both trees hand over the same entities in the same order. They agree on what is
tracked and how deep it is stored, and on the number and the depth of their nodes. -/
theorem like_new_after_clear {config : TreeConfig} {t₀ : Tree layout}
    (hcreate : (create layout config).1 = .ok t₀) (history changes : List Change)
    (hkeeps : .clear ∉ changes) :
    let t := SpatialIndex.run t₀ changes
    let cleared := SpatialIndex.run t₀ (history ++ [.clear])
    let u := SpatialIndex.run cleared changes
    (∃ events, t₀.tryRun changes = .ok (t, events) ∧ cleared.tryRun changes = .ok (u, events)) ∧
    SpatialIndex.journal cleared changes = SpatialIndex.journal t₀ changes ∧
    (∀ region, (∃ es, HandsOver (fun _ _ out => SpatialIndex.collect t region out) es ∧
      HandsOver (fun _ _ out => SpatialIndex.collect u region out) es) ∧
        AnswerAlike u t region) ∧
    (∀ e, ∃ depth, t.tryEntityDepth e = .ok depth ∧ u.tryEntityDepth e = .ok depth) ∧
    (∀ e, SpatialIndex.contains u e = SpatialIndex.contains t e) ∧
    SpatialIndex.count u = SpatialIndex.count t ∧
    ∃ stats stats', t.tryStats = .ok stats ∧ u.tryStats = .ok stats' ∧
      stats'.liveNodes = stats.liveNodes ∧ stats'.deepestLevel = stats.deepestLevel := by
  intro t cleared u
  obtain ⟨hwell, hconfig, -⟩ := wellFormed_of_create hcreate history
  obtain ⟨rfl, hworld⟩ := eq_empty_of_create hcreate
  have hcleared : cleared = (SpatialIndex.run (empty config : Tree layout) history).clear := by
    change SpatialIndex.run _ _ = _
    rw [SpatialIndex.run_append]
    rfl
  have hstart : Coupled (recycled layout) id (empty config) cleared := by
    rw [hcleared]
    exact recycled_clear hworld hwell hconfig
  obtain ⟨ρ, events, hrun, hrun', h⟩ := exists_tryRun_recycled hstart hkeeps
  change Mirrors ρ t u at h
  refine ⟨⟨events, hrun, hrun'⟩, ?_, ?_, h.tryEntityDepth_eq, h.contains_eq, h.size_eq,
    h.tryStats_eq⟩
  · rw [journal_of_tryRun hrun, journal_of_tryRun hrun']
  · intro region
    obtain ⟨es, hhands, -⟩ := exists_handsOver h.left region
    have hhands' : HandsOver (fun _ _ out => SpatialIndex.collect u region out) es :=
      fun σ _ out => (h.collect_eq region out).trans (hhands σ out)
    exact ⟨⟨es, hhands, hhands'⟩, congrArg Array.toList (h.queryInto_eq region #[]),
      h.queryInto_eq region, h.querySpan_eq region⟩

/-- An octree whose root was divided twice over divides it again into the first block. -/
theorem like_new_after_clear_divided :
    SpatialIndex.journal
      (SpatialIndex.run (empty { maxOccupants := 1 } : Octree)
        ([.update ⟨1, 0⟩ (.splat 10) none, .update ⟨2, 0⟩ (.splat 20) none] ++ [.clear]))
      [.update ⟨3, 0⟩ (.splat (-10)) none, .update ⟨4, 0⟩ (.splat 10) none, .remove ⟨3, 0⟩,
        .remove ⟨4, 0⟩] =
      [TreeEvent.report "galaxy3d::Octree" (.subdivided 0 0 0),
        TreeEvent.report "galaxy3d::Octree" (.merged 0 0 0)] := by
  have hcreate : (create .oct { maxOccupants := 1 }).1 = .ok (empty { maxOccupants := 1 }) :=
    create_eq_ok (by decide +kernel)
  have hreports := (like_new_after_clear hcreate
    [.update ⟨1, 0⟩ (.splat 10) none, .update ⟨2, 0⟩ (.splat 20) none]
    [.update ⟨3, 0⟩ (.splat (-10)) none, .update ⟨4, 0⟩ (.splat 10) none, .remove ⟨3, 0⟩,
      .remove ⟨4, 0⟩] (by decide)).2.1
  exact hreports.trans (by decide +kernel)

end Tree

end Broadphase
