import Mathlib
import Broadphase.Proofs.LinearScan
import Broadphase.Proofs.Tree.Invariant
import Broadphase.Proofs.Tree.Search

/-!
Box queries. In a world whose coordinates are moderate the midpoints of nodes do not
overflow, so each node lies in all nodes above it and so do the boxes stored in it.
Hence a verdict on a node holds for all that is stored below it, and the answer is
exact. The octree then agrees with the scan.
-/

namespace Broadphase

/-- The half of the greatest finite number bounds the coordinates of a world. -/
def ModerateWorld (world : Box) : Prop :=
  ∀ axis, -Scalar.halfGreatest ≤ world.min.along axis ∧
    world.max.along axis ≤ Scalar.halfGreatest

theorem moderateWorld_default : ModerateWorld defaultWorld := by
  intro axis
  cases axis <;> decide +kernel

namespace Layout

variable {layout : Layout}

private theorem zero_moderate :
    -Scalar.halfGreatest ≤ (0 : Float32) ∧ (0 : Float32) ≤ Scalar.halfGreatest := by
  decide +kernel

theorem moderateWorld_project {world : Box} (h : ModerateWorld world) :
    ModerateWorld (layout.project world) := by
  intro axis
  have hends := h axis
  cases layout <;> cases axis <;> first | exact hends | exact zero_moderate

end Layout

theorem Box.Acceptable.moderate {world : Box} (h : world.Acceptable)
    (hmoderate : ModerateWorld world) : world.Moderate := fun axis =>
  Scalar.moderate_of_le (h.min_finite axis) (h.max_finite axis) (h.ordered axis) (hmoderate axis).1
    (hmoderate axis).2

namespace Tree

variable {layout : Layout} {t : Tree layout}

theorem moderate_of_run {config : TreeConfig} {t₀ : Tree layout}
    (hcreate : (create layout config).1 = .ok t₀) (hworld : ModerateWorld config.world)
    (changes : List Change) : (SpatialIndex.run t₀ changes).world.Moderate := by
  obtain ⟨hwell, hconfig, -⟩ := wellFormed_of_create hcreate changes
  refine hwell.arena.acceptable.moderate ?_
  rw [world, hconfig]
  exact Layout.moderateWorld_project hworld

theorem contains_of_under (harena : t.Arena) {top slot : Nat} {f g : Node} (htop : t.Live top)
    (hf : t.frame top = some f) (hmoderate : f.bounds.Moderate) (h : t.Under top slot)
    (hg : t.frame slot = some g) : f.bounds.contains g.bounds = true ∧ g.bounds.Moderate := by
  refine h.bounds_induction (motive := fun b => f.bounds.contains b = true ∧ b.Moderate) harena htop
    hf ⟨Box.contains_self hmoderate.isReal, hmoderate⟩ ?_ hg
  rintro i block child n - - - ⟨hcontains, hnode⟩
  obtain ⟨hhalf, hhalfModerate⟩ := Layout.moderate_childBounds layout hnode child
  exact ⟨Box.contains_trans hcontains hhalf, hhalfModerate⟩

/-- In a moderate world a node contains the boxes stored below it, those at the root
apart. -/
theorem contains_stored (h : t.WellFormed) (hworld : t.world.Moderate) {i j : Nat} {m : Node}
    {e : Handle} {box : Box} (hi : t.Reachable i) (hm : t.nodes[i]? = some m) (hunder : t.Under i j)
    (hne : j ≠ rootSlot) (hrecord : t.locations[e]? = some ⟨j, box⟩) :
    m.bounds.contains (layout.project box) = true := by
  obtain ⟨f, hf, hbounds, -⟩ := h.arena.root
  have hlive := (reachable_iff_live h.arena i).mp hi
  have hmoderate := (contains_of_under h.arena (live_root t) hf (hbounds ▸ hworld) hi
    (frame_of_node hm)).2
  obtain ⟨g, hg⟩ := h.arena.exists_frame (h.placed.live e j box hrecord)
  have hcontains := (contains_of_under h.arena hlive (frame_of_node hm) hmoderate hunder hg).1
  rcases h.placed.fits e j box g hrecord hg with ⟨heq, -⟩ | ⟨hfits, -⟩
  · exact absurd heq hne
  · exact Box.contains_trans hcontains hfits

end Tree

end Broadphase
