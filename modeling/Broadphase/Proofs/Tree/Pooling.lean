import Mathlib
import Broadphase.Proofs.Tree.Coupling
import Broadphase.Proofs.Tree.Partition
import Broadphase.Proofs.Tree.PointQuery

/-!
Keeping retired blocks cannot be observed. A tree that keeps them hands out other blocks
than one that gives them up, but after the same changes each is a renaming of the
other, and neither queries nor counts nor depths tell a renaming.
-/

namespace Broadphase

namespace Tree

variable {layout : Layout} {t u : Tree layout} {ρ : Nat → Nat}

namespace Mirrors

/-- Trees of the same world without divided nodes and entities mirror each other. -/
theorem of_unused (left : t.WellFormed) (right : u.WellFormed)
    (hconfig : { u.config with pooling := t.config.pooling } = t.config) (hspan : u.span = t.span)
    (hfree : ∀ block, ¬ t.pool.InUse block) (hfree' : ∀ block, ¬ u.pool.InUse block)
    (hnone : ∀ e : Handle, t.locations[e]? = none) (hnone' : ∀ e : Handle, u.locations[e]? = none) :
    Mirrors ρ t u := by
  have hroot {slot : Nat} (hlive : t.Live slot) : slot = rootSlot :=
    hlive.resolve_right fun ⟨block, _, huse, _⟩ => hfree block huse
  have hworld : u.world = t.world := by
    rw [world, world, ← hconfig]
  refine ⟨left, right, hconfig, hspan, fun block huse => absurd huse (hfree block),
    fun block _ huse => absurd huse (hfree block), ?_, ?_, ?_⟩
  · intro slot f hlive hf
    obtain rfl := hroot hlive
    rw [left.arena.frame_root hfree] at hf
    obtain rfl := Option.some.inj hf
    rw [Layout.renameSlot_root, right.arena.frame_root hfree', hworld]
    rfl
  · intro slot hlive
    rw [left.placed.occupantsAt_of_untracked hnone, right.placed.occupantsAt_of_untracked hnone']
  · intro e
    rw [hnone, hnone']
    rfl

theorem clear (h : Mirrors ρ t u) : Mirrors ρ t.clear u.clear :=
  of_unused (wellFormed_clear h.left).1 (wellFormed_clear h.right).1 h.config_eq rfl
    (not_inUse_clear h.left.arena) (not_inUse_clear h.right.arena)
    (fun _ => Std.ExtTreeMap.getElem?_empty) fun _ => Std.ExtTreeMap.getElem?_empty

/-- Nothing but the renaming is kept. -/
def uncoupled (layout : Layout) : Coupling layout where
  pools _ _ _ := True
  reports _ _ := True
  alloc _ := trivial
  free _ _ _ _ := trivial
  report _ _ := trivial

theorem transition (h : Mirrors ρ t u) {t' u' : Tree layout} {change : Change}
    {events events' : List TreeEvent} (htransition : t.Transition change events t')
    (htransition' : u.Transition change events' u') : ∃ ρ', Mirrors ρ' t' u' := by
  by_cases hclear : change = .clear
  · subst hclear
    cases htransition
    cases htransition'
    exact ⟨ρ, h.clear⟩
  · have hcoupled : Coupled (uncoupled layout) ρ t u := ⟨h, trivial⟩
    obtain ⟨ρ', hresult, -⟩ := hcoupled.transition hclear htransition htransition'
    exact ⟨ρ', hresult.mirrors⟩

/-- After the same changes to trees that mirror each other they still do. -/
theorem run (h : Mirrors ρ t u) (changes : List Change) :
    ∃ ρ', Mirrors ρ' (SpatialIndex.run t changes) (SpatialIndex.run u changes) := by
  induction changes generalizing ρ t u with
  | nil => exact ⟨ρ, h⟩
  | cons change changes ih =>
      obtain ⟨t', events, heq, htransition⟩ := exists_transition h.left change
      obtain ⟨u', events', heq', htransition'⟩ := exists_transition h.right change
      obtain ⟨ρ', hresult⟩ := h.transition htransition htransition'
      rw [SpatialIndex.run_cons, SpatialIndex.run_cons, apply_of_step heq, apply_of_step heq']
      exact ih hresult

theorem of_create {config : TreeConfig} {pooling : Bool}
    (h : (create layout config).1 = .ok t)
    (h' : (create layout { config with pooling }).1 = .ok u) : Mirrors id t u := by
  obtain ⟨rfl, hworld⟩ := eq_empty_of_create h
  obtain ⟨rfl, hworld'⟩ := eq_empty_of_create h'
  exact of_unused (wellFormed_empty hworld) (wellFormed_empty hworld') rfl rfl
    (fun block huse => Nat.not_lt_zero block huse.1)
    (fun block huse => Nat.not_lt_zero block huse.1)
    (fun _ => Std.ExtTreeMap.getElem?_empty) fun _ => Std.ExtTreeMap.getElem?_empty

section Observations

variable (h : Mirrors ρ t u)

include h

theorem queryInto_eq (region : Region) (seed : Array Handle) :
    SpatialIndex.queryInto u region seed = SpatialIndex.queryInto t region seed := by
  have hcollect : SpatialIndex.collect u region seed = SpatialIndex.collect t region seed :=
    h.collect_eq region seed
  have hsorted : SpatialIndex.isDeterministic u = SpatialIndex.isDeterministic t :=
    h.deterministic_eq
  rw [SpatialIndex.queryInto, SpatialIndex.queryInto, hcollect, hsorted]

theorem querySpan_eq (region : Region) (buffer : Array Handle) :
    SpatialIndex.querySpan u region buffer = SpatialIndex.querySpan t region buffer := by
  have hcollect : SpatialIndex.collect u region (Span.ofBuffer buffer) =
      SpatialIndex.collect t region (Span.ofBuffer buffer) := h.collect_eq region _
  have hsorted : SpatialIndex.isDeterministic u = SpatialIndex.isDeterministic t :=
    h.deterministic_eq
  rw [SpatialIndex.querySpan, SpatialIndex.querySpan, hcollect, hsorted]

theorem size_eq : u.locations.size = t.locations.size := by
  have hmap : u.locations = t.locations.map fun _ => Location.rename layout ρ := by
    refine Std.ExtTreeMap.ext_getElem? fun e => ?_
    rw [Std.ExtTreeMap.getElem?_map]
    exact h.record_eq e
  rw [hmap, Std.ExtTreeMap.size_map]

theorem contains_eq (e : Handle) : u.locations.contains e = t.locations.contains e := by
  rw [Std.ExtTreeMap.contains_eq_isSome_getElem?, Std.ExtTreeMap.contains_eq_isSome_getElem?,
    h.record_eq, Option.isSome_map]

theorem live_eq : u.pool.live = t.pool.live := by
  have hlength : u.reachableSlots.length = t.reachableSlots.length := by
    rw [h.reachableSlots_eq, List.length_map]
  rw [length_reachableSlots h.right.arena, length_reachableSlots h.left.arena] at hlength
  exact Nat.eq_of_mul_eq_mul_right (Layout.arity_pos layout) (Nat.add_left_cancel hlength)

theorem tryStats_eq : ∃ stats stats', t.tryStats = .ok stats ∧ u.tryStats = .ok stats' ∧
    stats'.liveNodes = stats.liveNodes ∧ stats'.deepestLevel = stats.deepestLevel := by
  obtain ⟨n, hallows⟩ := Allows.root h.left.arena
  obtain ⟨deepest, hdeepest, -⟩ := exists_deepestBelow h.left.arena hallows
  have hdeepest' := (h.deepestBelow_eq hallows).trans hdeepest
  rw [Layout.renameSlot_root, ← h.maxDepth_eq] at hdeepest'
  refine ⟨⟨t.locations.size, 1 + t.pool.live * layout.arity, t.pool.pooled * layout.arity, deepest⟩,
    ⟨u.locations.size, 1 + u.pool.live * layout.arity, u.pool.pooled * layout.arity, deepest⟩,
    ?_, ?_, ?_, rfl⟩
  · unfold tryStats
    rw [hdeepest]
    rfl
  · unfold tryStats
    rw [hdeepest']
    rfl
  · rw [h.live_eq]

end Observations

end Mirrors

/-- Two trees whose configurations differ at most in whether retired blocks are kept cannot
be told apart after the same changes. No query fails, and to every receiver both hand over
the same entities in the same order, so the three forms of a query agree. They agree on
what is tracked and how deep it is stored, and on the number and depth of their nodes. -/
theorem pooling_unobservable_of_run {config : TreeConfig} {pooling : Bool} {t₀ u₀ : Tree layout}
    (hcreate : (create layout config).1 = .ok t₀)
    (hcreate' : (create layout { config with pooling }).1 = .ok u₀) (changes : List Change) :
    let t := SpatialIndex.run t₀ changes
    let u := SpatialIndex.run u₀ changes
    (∀ region, ∃ es, HandsOver (fun _ _ out => SpatialIndex.collect t region out) es ∧
      HandsOver (fun _ _ out => SpatialIndex.collect u region out) es) ∧
    (∀ region, SpatialIndex.query u region = SpatialIndex.query t region) ∧
    (∀ region seed, SpatialIndex.queryInto u region seed = SpatialIndex.queryInto t region seed) ∧
    (∀ region buffer,
      SpatialIndex.querySpan u region buffer = SpatialIndex.querySpan t region buffer) ∧
    SpatialIndex.count u = SpatialIndex.count t ∧
    (∀ e, SpatialIndex.contains u e = SpatialIndex.contains t e) ∧
    (∀ e, ∃ depth, t.tryEntityDepth e = .ok depth ∧ u.tryEntityDepth e = .ok depth) ∧
    ∃ stats stats', t.tryStats = .ok stats ∧ u.tryStats = .ok stats' ∧
      stats'.liveNodes = stats.liveNodes ∧ stats'.deepestLevel = stats.deepestLevel := by
  intro t u
  obtain ⟨ρ, h⟩ := (Mirrors.of_create hcreate hcreate').run changes
  refine ⟨?_, ?_, h.queryInto_eq, h.querySpan_eq, h.size_eq, h.contains_eq, h.tryEntityDepth_eq,
    h.tryStats_eq⟩
  · intro region
    obtain ⟨es, hhands, -⟩ := exists_handsOver h.left region
    exact ⟨es, hhands, fun σ _ out => (h.collect_eq region out).trans (hhands σ out)⟩
  · intro region
    exact congrArg Array.toList (h.queryInto_eq region #[])

/-- An octree that gives up retired blocks answers like one that keeps them, also after
a division, a merge and another division. -/
theorem pooling_unobservable_of_run_refilled :
    SpatialIndex.query (SpatialIndex.run (empty { maxOccupants := 1, pooling := false } : Octree)
        [.update ⟨1, 0⟩ (.splat (-10)) none, .update ⟨2, 0⟩ (.splat 10) none, .remove ⟨1, 0⟩,
          .remove ⟨2, 0⟩, .update ⟨3, 0⟩ (.splat 10) none, .update ⟨4, 0⟩ (.splat (-10)) none])
      (.box defaultWorld) = [⟨4, 0⟩, ⟨3, 0⟩] := by
  have hcreate : (create .oct { maxOccupants := 1 }).1 = .ok (empty { maxOccupants := 1 }) :=
    create_eq_ok (by decide +kernel)
  have hcreate' : (create .oct { maxOccupants := 1, pooling := false }).1 =
      .ok (empty { maxOccupants := 1, pooling := false }) := create_eq_ok (by decide +kernel)
  exact ((pooling_unobservable_of_run hcreate hcreate' _).2.1 _).trans (by decide +kernel)

end Tree

end Broadphase
