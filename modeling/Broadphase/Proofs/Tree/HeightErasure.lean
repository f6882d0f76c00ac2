import Mathlib
import Broadphase.Proofs.Tree.Flattening

/-!
A quadtree is blind to heights. Two trees whose histories agree in all but heights are the
same after flattening. A point, a ball or a box is looked for in placement space, and counters
and depths read no box, so nothing but a query of a viewing volume tells the heights.
-/

namespace Broadphase

@[simp]
theorem Layout.projectPoint_projectPoint (layout : Layout) (p : Vec3) :
    layout.projectPoint (layout.projectPoint p) = layout.projectPoint p := by
  cases layout <;> rfl

/-- The region with its heights flattened. A viewing volume stays as it is. -/
def Region.flat (layout : Layout) : Region → Region
  | .point p => .point (layout.projectPoint p)
  | .sphere center radius => .sphere (layout.projectPoint center) radius
  | .box b => .box (layout.project b)
  | .frustum f => .frustum f

namespace Tree

variable {layout : Layout} (span : Option Layout.HeightSpan) (t : Tree layout)

section Queries

variable {σ : Type} [Sink σ]

@[simp] theorem visit_flat (slot : Nat) : (t.flat span).visit slot = t.visit slot := rfl

theorem collectTested_flat {test : Box → Bool} (htest : ∀ b, test (layout.project b) = test b)
    (n : Node) (out : σ) :
    (t.flat span).collectTested test n out = t.collectTested test n out := by
  unfold collectTested
  congr 1
  funext out e
  rw [record_flat]
  cases t.locations[e]? with
  | none => rfl
  | some location => simp only [Option.map_some, Location.flat, htest]

theorem collectAll_flat (levels slot : Nat) (out : σ) :
    (t.flat span).collectAll levels slot out = t.collectAll levels slot out := by
  induction levels generalizing slot out with
  | zero =>
      unfold collectAll
      simp only [visit_flat]
  | succ levels ih =>
      unfold collectAll
      simp only [visit_flat, ih]

theorem collectRegion_flat (classify : Box → Containment) {test : Box → Bool}
    (htest : ∀ b, test (layout.project b) = test b) (levels slot : Nat) (out : σ) :
    (t.flat span).collectRegion classify test levels slot out =
      t.collectRegion classify test levels slot out := by
  induction levels generalizing slot out with
  | zero =>
      unfold collectRegion
      simp only [visit_flat, collectTested_flat span t htest, collectAll_flat]
  | succ levels ih =>
      unfold collectRegion
      simp only [visit_flat, collectTested_flat span t htest, collectAll_flat, ih]

theorem collectFromRoot_flat (classify : Box → Containment) {test : Box → Bool}
    (htest : ∀ b, test (layout.project b) = test b) (out : σ) :
    (t.flat span).collectFromRoot classify test out = t.collectFromRoot classify test out := by
  unfold collectFromRoot
  simp only [visit_flat, maxDepth_flat, collectTested_flat span t htest, collectAll_flat,
    collectRegion_flat span t classify htest]

theorem collectPath_flat (p : Vec3) (levels slot : Nat) (out : σ) :
    (t.flat span).collectPath p levels slot out = t.collectPath p levels slot out := by
  have htested (n : Node) (out : σ) :
      (t.flat span).collectTested (fun b => (layout.project b).containsPoint p) n out =
        t.collectTested (fun b => (layout.project b).containsPoint p) n out := by
    apply collectTested_flat
    intro b
    rw [Layout.project_project]
  induction levels generalizing slot out with
  | zero =>
      unfold collectPath
      simp only [visit_flat, htested]
  | succ levels ih =>
      unfold collectPath
      simp only [visit_flat, htested, ih]

/-- Flattening changes no answer, except where a viewing volume is asked about. -/
theorem collect_flat {region : Region} (hflat : ∀ f, region ≠ .frustum f) (out : σ) :
    (t.flat span).collect (region.flat layout) out = t.collect region out := by
  cases region with
  | point p =>
      unfold collect Region.flat
      simp only [visit_flat, maxDepth_flat, Layout.projectPoint_projectPoint, collectPath_flat]
  | sphere center radius =>
      unfold collect Region.flat
      simp only [Layout.projectPoint_projectPoint]
      rw [collectFromRoot_flat]
      intro b
      rw [Layout.project_project]
  | box query =>
      unfold collect Region.flat
      simp only [Layout.project_project]
      rw [collectFromRoot_flat]
      intro b
      rw [Layout.project_project]
  | frustum f => exact absurd rfl (hflat f)

end Queries

theorem deepestBelow_flat (levels slot : Nat) :
    (t.flat span).deepestBelow levels slot = t.deepestBelow levels slot := by
  induction levels generalizing slot with
  | zero =>
      unfold deepestBelow
      simp only [node_flat]
  | succ levels ih =>
      unfold deepestBelow
      simp only [node_flat, ih]

theorem tryStats_flat : (t.flat span).tryStats = t.tryStats := by
  unfold tryStats
  simp only [maxDepth_flat, pool_flat, size_flat, deepestBelow_flat]

theorem tryEntityDepth_flat (e : Handle) :
    (t.flat span).tryEntityDepth e = t.tryEntityDepth e := by
  unfold tryEntityDepth
  rw [record_flat]
  cases t.locations[e]? <;> rfl

theorem contains_flat (e : Handle) :
    (t.flat span).locations.contains e = t.locations.contains e := by
  rw [Std.ExtTreeMap.contains_eq_isSome_getElem?, Std.ExtTreeMap.contains_eq_isSome_getElem?,
    record_flat, Option.isSome_map]

variable {span t}

/-- Trees that are the same after flattening answer alike, unless a viewing volume is asked
about. -/
theorem collect_eq_of_flat_eq {u : Tree layout} (hflat : u.flat span = t.flat span)
    {region region' : Region} (hvolume : ∀ f, region ≠ .frustum f)
    (hregion : region'.flat layout = region.flat layout) {σ : Type} [Sink σ] (out : σ) :
    SpatialIndex.collect u region' out = SpatialIndex.collect t region out := by
  have hvolume' : ∀ f, region' ≠ .frustum f := by
    rintro f rfl
    cases region with
    | point | sphere | box => cases hregion
    | frustum g => exact hvolume g rfl
  have hleft := collect_flat span u hvolume' out
  have hright := collect_flat span t hvolume out
  rw [hflat, hregion] at hleft
  exact hleft.symm.trans hright

/-- Histories that agree after flattening do the same to both trees, and leave the same tree
but for the heights. -/
theorem exists_flat_eq_of_run {config config' : TreeConfig} {t₀ u₀ : Tree layout}
    (hcreate : (create layout config).1 = .ok t₀) (hcreate' : (create layout config').1 = .ok u₀)
    (hconfig : config'.flat layout = config.flat layout) {changes changes' : List Change}
    (hchanges : changes'.map (Change.flat layout) = changes.map (Change.flat layout)) :
    ∃ events span, t₀.tryRun changes = .ok (SpatialIndex.run t₀ changes, events) ∧
      u₀.tryRun changes' = .ok (SpatialIndex.run u₀ changes', events) ∧
      (SpatialIndex.run u₀ changes').flat span = (SpatialIndex.run t₀ changes).flat span := by
  obtain ⟨rfl, hworld⟩ := eq_empty_of_create hcreate
  obtain ⟨rfl, hworld'⟩ := eq_empty_of_create hcreate'
  have hwell : (empty config : Tree layout).WellFormed := wellFormed_empty hworld
  have hwell' : (empty config' : Tree layout).WellFormed := wellFormed_empty hworld'
  obtain ⟨events, hrun, -⟩ := exists_tryRun hwell changes
  obtain ⟨events', hrun', -⟩ := exists_tryRun hwell' changes'
  have hstart : (empty config' : Tree layout).flat none = (empty config).flat none := by
    rw [flat_empty, flat_empty, hconfig]
  have hflat := tryRun_flat none (empty config : Tree layout) changes
  have hflat' := tryRun_flat none (empty config' : Tree layout) changes'
  rw [hstart, hchanges, hflat, hrun, hrun'] at hflat'
  obtain ⟨hsame, rfl⟩ := Prod.mk.inj (Except.ok.inj hflat')
  exact ⟨events, _, hrun, hrun', hsame.symm⟩

/-- Two quadtrees whose settings agree in all but the heights of the world, and whose
histories agree in all but the heights of positions and boxes, cannot be told apart by a query
of a point, a ball or a box, whatever heights these have. Neither of them fails. The same
divisions and merges happen in the same slots and blocks and the same is reported about them;
nodes, pool and counters are the same, and so are what is tracked and how deep it is stored. -/
theorem heights_unobservable_of_run {config config' : TreeConfig} {t₀ u₀ : Quadtree}
    (hcreate : (create .quad config).1 = .ok t₀) (hcreate' : (create .quad config').1 = .ok u₀)
    (hconfig : config'.flat .quad = config.flat .quad) {changes changes' : List Change}
    (hchanges : changes'.map (Change.flat .quad) = changes.map (Change.flat .quad)) :
    let t := SpatialIndex.run t₀ changes
    let u := SpatialIndex.run u₀ changes'
    (∃ events, t₀.tryRun changes = .ok (t, events) ∧ u₀.tryRun changes' = .ok (u, events)) ∧
    SpatialIndex.journal u₀ changes' = SpatialIndex.journal t₀ changes ∧
    (∀ region region' : Region, (∀ f, region ≠ .frustum f) →
      region'.flat .quad = region.flat .quad →
      (∃ es, HandsOver (fun _ _ out => SpatialIndex.collect t region out) es ∧
        HandsOver (fun _ _ out => SpatialIndex.collect u region' out) es) ∧
      SpatialIndex.query u region' = SpatialIndex.query t region ∧
      (∀ seed,
        SpatialIndex.queryInto u region' seed = SpatialIndex.queryInto t region seed) ∧
      ∀ buffer,
        SpatialIndex.querySpan u region' buffer = SpatialIndex.querySpan t region buffer) ∧
    (∀ e, SpatialIndex.contains u e = SpatialIndex.contains t e) ∧
    (∀ e, ∃ depth, t.tryEntityDepth e = .ok depth ∧ u.tryEntityDepth e = .ok depth) ∧
    (SpatialIndex.count u = SpatialIndex.count t ∧ u.nodes = t.nodes ∧ u.pool = t.pool) ∧
    ∃ stats, t.tryStats = .ok stats ∧ u.tryStats = .ok stats := by
  intro t u
  obtain ⟨hwell, -⟩ := wellFormed_of_create hcreate changes
  obtain ⟨events, span, hrun, hrun', hflat⟩ :=
    exists_flat_eq_of_run hcreate hcreate' hconfig hchanges
  change t.WellFormed at hwell
  change u.flat span = t.flat span at hflat
  refine ⟨⟨events, hrun, hrun'⟩, ?_, ?_, ?_, ?_, ⟨?_, ?_, ?_⟩, ?_⟩
  · rw [journal_of_tryRun hrun, journal_of_tryRun hrun']
  · intro region region' hvolume hregion
    obtain ⟨es, hhands, -⟩ := exists_handsOver hwell region
    have hhands' : HandsOver (fun _ _ out => SpatialIndex.collect u region' out) es :=
      fun σ _ out => (collect_eq_of_flat_eq hflat hvolume hregion out).trans (hhands σ out)
    have hsorted : SpatialIndex.isDeterministic u = SpatialIndex.isDeterministic t := by
      have hconfigs := congrArg Tree.config hflat
      have hsame := congrArg TreeConfig.deterministic hconfigs
      exact hsame
    have hquery : SpatialIndex.query u region' = SpatialIndex.query t region := by
      rw [query_of_handsOver hhands, query_of_handsOver hhands', hsorted]
    refine ⟨⟨es, hhands, hhands'⟩, hquery, ?_, ?_⟩
    · intro seed
      rw [queryInto_of_handsOver hhands, queryInto_of_handsOver hhands', hsorted]
    · intro buffer
      rw [querySpan_of_handsOver Handle.sort_perm hhands,
        querySpan_of_handsOver Handle.sort_perm hhands', hquery]
  · intro e
    have hcontains := contains_flat span u e
    rw [hflat, contains_flat] at hcontains
    exact hcontains.symm
  · intro e
    obtain ⟨depth, hdepth, -⟩ := exists_entityDepth hwell e
    have hsame := tryEntityDepth_flat span u e
    rw [hflat, tryEntityDepth_flat] at hsame
    exact ⟨depth, hdepth, hsame.symm.trans hdepth⟩
  · have hsize := size_flat span u
    rw [hflat, size_flat] at hsize
    exact hsize.symm
  · have hnodes := congrArg nodes hflat
    exact hnodes
  · have hpool := congrArg pool hflat
    exact hpool
  · obtain ⟨hstats, -⟩ := tryStats_eq hwell.arena
    have hsame := tryStats_flat span u
    rw [hflat, tryStats_flat] at hsame
    exact ⟨_, hstats, hsame.symm.trans hstats⟩

/-- A quadtree of another height finds the same entities, although one of them has no height
at all and the query lies far above the other. -/
theorem heights_unobservable_of_run_nan :
    SpatialIndex.query
      (SpatialIndex.run
        (empty { world := ⟨⟨-1024, -1, -1024⟩, ⟨1024, 1, 1024⟩⟩, maxOccupants := 1 } : Quadtree)
        [.update ⟨1, 0⟩ ⟨10, 0 / 0, 10⟩ none, .update ⟨2, 0⟩ ⟨-10, 5, -10⟩ none])
      (.box ⟨⟨0, 900, 0⟩, ⟨20, 1 / 0, 20⟩⟩) = [⟨1, 0⟩] := by
  have hcreate : (create .quad { maxOccupants := 1 }).1 = .ok (empty { maxOccupants := 1 }) :=
    create_eq_ok (by decide +kernel)
  have hcreate' : (create .quad
      { world := ⟨⟨-1024, -1, -1024⟩, ⟨1024, 1, 1024⟩⟩, maxOccupants := 1 }).1 =
      .ok (empty { world := ⟨⟨-1024, -1, -1024⟩, ⟨1024, 1, 1024⟩⟩, maxOccupants := 1 }) :=
    create_eq_ok (by decide +kernel)
  have hchanges : [Change.update ⟨1, 0⟩ ⟨10, 0 / 0, 10⟩ none,
      .update ⟨2, 0⟩ ⟨-10, 5, -10⟩ none].map (Change.flat .quad) =
      [Change.update ⟨1, 0⟩ (.splat 10) none,
        .update ⟨2, 0⟩ (.splat (-10)) none].map (Change.flat .quad) := by decide +kernel
  obtain ⟨-, -, hqueries, -⟩ :=
    heights_unobservable_of_run hcreate hcreate' (by decide +kernel) hchanges
  obtain ⟨-, hquery, -⟩ := hqueries (.box ⟨.zero, .splat 20⟩)
    (.box ⟨⟨0, 900, 0⟩, ⟨20, 1 / 0, 20⟩⟩) (by simp) (by decide +kernel)
  exact hquery.trans (by decide +kernel)

end Tree

end Broadphase
