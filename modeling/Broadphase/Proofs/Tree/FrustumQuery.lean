import Mathlib
import Broadphase.Proofs.Frustum
import Broadphase.Proofs.Tree.BallQuery
import Broadphase.Proofs.Tree.HeightSpan

/-!
Frustum queries. The volume that stands for a node contains the boxes stored below it
as they are in the world: across the ground because the node contains their projections,
and in height because a flat node is raised to a range that encloses everything tracked.
So a plane that excludes the volume excludes the boxes, and no visible box is missed.
-/

namespace Broadphase

namespace Layout

variable {layout : Layout} {node box : Box} {span : HeightSpan}

theorem cullingVolume_contains (hnode : node.contains (layout.project box) = true)
    (hlow : span.low ≤ box.min.y) (hhigh : box.max.y ≤ span.high) :
    (layout.cullingVolume node (some span)).contains box = true := by
  rw [Box.contains_iff] at hnode ⊢
  intro axis
  have haxis := hnode axis
  cases layout <;> cases axis <;> first | exact haxis | exact ⟨hlow, hhigh⟩

theorem isReal_cullingVolume (hnode : node.IsReal)
    (hspan : (∃ r, Scalar.IsReal span.low r) ∧ ∃ r, Scalar.IsReal span.high r) :
    (layout.cullingVolume node (some span)).IsReal := by
  refine ⟨fun axis => ?_, fun axis => ?_⟩
  · have hmin := hnode.min axis
    cases layout <;> cases axis <;> first | exact hmin | exact hspan.1
  · have hmax := hnode.max axis
    cases layout <;> cases axis <;> first | exact hmax | exact hspan.2

end Layout

namespace Tree

variable {layout : Layout} {t : Tree layout}

/-- A node is never wrongly outside of a viewing volume, whatever its planes are. -/
theorem outsideFails_frustum (h : t.WellFormed) (hworld : t.world.Moderate)
    (hreal : ∀ e box, t.boxOf e = some box → box.IsReal) (hspan : Encloses t.span t.boxOf)
    (f : Frustum) :
    t.OutsideFails (fun node => f.classifyBox (layout.cullingVolume node t.span))
      f.intersectsBox := by
  intro i j m e box hi hm hunder hne hrecord hverdict
  have hcontains := contains_stored h hworld hi hm hunder hne hrecord
  have hbox := boxOf_of_record hrecord
  obtain ⟨s, hs, hlow, hhigh⟩ := hspan.encloses e box hbox
  rw [hs, Frustum.classifyBox_eq_outside_iff] at hverdict
  rw [← Bool.not_eq_true]
  intro hmeets
  have hvolume := Frustum.intersectsBox_of_contains
    (Layout.isReal_cullingVolume (isReal_bounds h hworld hi hm) (hspan.isReal s hs))
    (hreal e box hbox) (Layout.cullingVolume_contains hcontains hlow hhigh) hmeets
  exact Bool.false_ne_true (hverdict.symm.trans hvolume)

/-- A frustum query misses no tracked entity with a visible box. While something is
tracked, the range of heights encloses the heights of all tracked boxes. -/
theorem frustum_query_of_run {config : TreeConfig} {t₀ : Tree layout}
    (hcreate : (create layout config).1 = .ok t₀) (hworld : ModerateWorld config.world)
    {changes : List Change} (hfinite : FiniteBoxes changes) (f : Frustum) :
    let t := SpatialIndex.run t₀ changes
    (∀ e box, trackedBoxes changes e = some box → f.intersectsBox box = true →
      e ∈ SpatialIndex.query t (.frustum f)) ∧
    ∀ e box, trackedBoxes changes e = some box →
      ∃ span, t.span = some span ∧ span.low ≤ box.min.y ∧ box.max.y ≤ span.high := by
  intro t
  obtain ⟨hwell, hconfig, hbox⟩ := wellFormed_of_create hcreate changes
  have hspan := encloses_of_create hcreate hfinite
  have hmoderate : t.world.Moderate := moderate_of_run hcreate hworld changes
  refine ⟨?_, hspan.encloses⟩
  intro e box htracked hvisible
  obtain ⟨es, hhands, -, hcomplete, -⟩ := exists_answer hwell (.frustum f)
    (fun node => f.classifyBox (layout.cullingVolume node t.span)) f.intersectsBox fun _ _ _ => rfl
  rw [(query_perm_of_handsOver Handle.sort_perm hhands).mem_iff]
  rw [← hbox] at htracked hspan
  refine hcomplete ?_ e box htracked hvisible
  exact outsideFails_frustum hwell hmoderate
    (fun e box hrecord => isReal_of_tracked hfinite (hbox ▸ hrecord)) hspan f

/-- Six planes bound what is above the ground of a divided quadtree. The point that they show is
known to be there by the range of heights alone, which is as wide as the two other boxes after
one of them was removed. -/
theorem frustum_query_of_run_heights :
    let changes : List Change := [.update ⟨1, 0⟩ ⟨10, 200, -10⟩ none,
      .update ⟨2, 0⟩ .zero (some ⟨.splat (-4), .splat 4⟩), .update ⟨3, 0⟩ ⟨-10, -3, 10⟩ none,
      .update ⟨4, 0⟩ ⟨10, 900, -600⟩ none, .remove ⟨4, 0⟩]
    let t : Quadtree := SpatialIndex.run (empty { maxOccupants := 1 }) changes
    let above : Frustum := ⟨⟨⟨1, 0, 0⟩, 20⟩, ⟨⟨-1, 0, 0⟩, 20⟩, ⟨⟨0, 1, 0⟩, -150⟩, ⟨⟨0, -1, 0⟩, 250⟩,
      ⟨⟨0, 0, 1⟩, 20⟩, ⟨⟨0, 0, -1⟩, 20⟩⟩
    t.nodes.size = 9 ∧ ⟨1, 0⟩ ∈ SpatialIndex.query t (.frustum above) ∧
      ∃ span, t.span = some span ∧ span.low ≤ -4 ∧ 200 ≤ span.high := by
  intro changes t above
  have hcreate : (create .quad { maxOccupants := 1 }).1 = .ok (empty { maxOccupants := 1 }) :=
    create_eq_ok (by decide +kernel)
  have hfinite : FiniteBoxes changes := finiteBoxes_iff.mpr (by decide +kernel)
  obtain ⟨hseen, hspan⟩ := frustum_query_of_run hcreate moderateWorld_default hfinite above
  obtain ⟨span, hrange, -, hhigh⟩ := hspan ⟨1, 0⟩ (.ofPoint ⟨10, 200, -10⟩) rfl
  obtain ⟨span', hrange', hlow, -⟩ := hspan ⟨2, 0⟩ ⟨.splat (-4), .splat 4⟩ rfl
  obtain rfl : span' = span := Option.some.inj (hrange'.symm.trans hrange)
  refine ⟨by decide +kernel, ?_, span', hrange, hlow, hhigh⟩
  exact hseen ⟨1, 0⟩ (.ofPoint ⟨10, 200, -10⟩) rfl (by decide +kernel)

end Tree

end Broadphase
