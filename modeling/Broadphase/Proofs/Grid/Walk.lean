import Mathlib
import Broadphase.Grid.Index
import Broadphase.Proofs.Grid.Ownership

/-!
The way of a query through the cells of a grid. In which order the occupied cells are met
is an accident of the map that holds them, and whether a block is gone through cell by
cell or by the occupied cells in it is a matter of cost. Neither can be told from the
answer: along every way it has, once each, the entities with an accepted cell in their
block.
-/

namespace Broadphase

/-- A way through the cells of grids: the occupied cells in some order, and the blocks
that are gone through cell by cell. -/
structure Walk where
  occupied : Grid → List CellKey
  occupied_perm : ∀ g, (occupied g).Perm g.cells.keys
  listsBlock : Grid → CellRange → Bool

/-- A grid whose queries go a given way. -/
structure WalkedGrid where
  grid : Grid
  walk : Walk

namespace Walk

/-- The way of a grid by itself: ascending keys, and blocks cell by cell if they are no
larger than the set of occupied cells. -/
def usual : Walk where
  occupied g := g.cells.keys
  occupied_perm _ := List.Perm.refl _
  listsBlock g range := range.count ≤ g.cells.size

def keysWithin (walk : Walk) (g : Grid) (range : CellRange) : List CellKey :=
  if walk.listsBlock g range then range.toList else (walk.occupied g).filter range.contains

theorem keysWithin_usual (g : Grid) (range : CellRange) :
    usual.keysWithin g range = g.keysWithin range := by
  simp only [keysWithin, usual, Grid.keysWithin, decide_eq_true_eq]

variable (walk : Walk) (g : Grid)

theorem nodup_occupied : (walk.occupied g).Nodup :=
  (walk.occupied_perm g).nodup_iff.mpr Std.ExtTreeMap.nodup_keys

theorem mem_occupied {k : CellKey} (h : g.cellEntities k ≠ #[]) : k ∈ walk.occupied g :=
  (walk.occupied_perm g).mem_iff.mpr (Std.ExtTreeMap.mem_keys.mpr (Grid.mem_cells h))

/-- The cells of a block that a query looks at are those that may hold an entity, once
each, whichever way they are listed. -/
theorem keysWithin_spec (range : CellRange) :
    (walk.keysWithin g range).Nodup ∧
      (∀ k ∈ walk.keysWithin g range, range.contains k = true) ∧
      ∀ k, g.cellEntities k ≠ #[] → range.contains k = true → k ∈ walk.keysWithin g range := by
  unfold keysWithin
  split_ifs
  · exact ⟨range.nodup_toList, fun k => CellRange.mem_toList.mp,
      fun k _ => CellRange.mem_toList.mpr⟩
  · exact ⟨(walk.nodup_occupied g).filter _, fun k hk => (List.mem_filter.mp hk).2,
      fun k hk hcontains => List.mem_filter.mpr ⟨walk.mem_occupied g hk, hcontains⟩⟩

end Walk

namespace WalkedGrid

section Collect

variable {σ : Type} [Sink σ]

def collectRange (g : WalkedGrid) (range : CellRange) (accepts : Box → Bool) (out : σ) :
    Except Halt σ :=
  if range.isEmpty || g.grid.cells.isEmpty then .ok out
  else g.grid.emitCells accepts (some range) (g.walk.keysWithin g.grid range) out

/-- Hand over the matches of a query. A point asks for one cell, whatever the way. -/
def collect (g : WalkedGrid) (region : Region) (out : σ) : Except Halt σ :=
  match region with
  | .point p => g.grid.collect (.point p) out
  | .sphere center radius =>
      if 0 ≤ radius then
        g.collectRange (g.grid.cellRange (.around center (.splat radius)))
          (·.intersectsSphere center radius) out
      else .ok out
  | .box query => g.collectRange (g.grid.cellRange query) (fun _ => true) out
  | .frustum f => g.grid.emitCells f.intersectsBox none (g.walk.occupied g.grid) out

end Collect

instance : SpatialIndex WalkedGrid where
  apply g change :=
    let (grid, reports) := SpatialIndex.apply g.grid change
    (⟨grid, g.walk⟩, reports)
  count g := SpatialIndex.count g.grid
  contains g := SpatialIndex.contains g.grid
  stats g := SpatialIndex.stats g.grid
  isDeterministic g := SpatialIndex.isDeterministic g.grid
  collect := collect

/-- A grid by itself goes the usual way. -/
theorem collect_usual (g : Grid) (region : Region) {σ : Type} [Sink σ] (out : σ) :
    SpatialIndex.collect (⟨g, .usual⟩ : WalkedGrid) region out =
      SpatialIndex.collect g region out := by
  have hrange (range : CellRange) (accepts : Box → Bool) :
      collectRange ⟨g, .usual⟩ range accepts out = g.collectRange range accepts out := by
    rw [collectRange, Grid.collectRange, Walk.keysWithin_usual]
  cases region with
  | point p => rfl
  | sphere center radius => exact if_congr Iff.rfl (hrange _ _) rfl
  | box query => exact hrange _ _
  | frustum f => rfl

theorem handsOver_usual {g : Grid} {region : Region} {es : List Handle}
    (h : HandsOver (fun _ _ out => SpatialIndex.collect (⟨g, .usual⟩ : WalkedGrid) region out) es) :
    HandsOver (fun _ _ out => SpatialIndex.collect g region out) es := by
  intro σ _ out
  exact (collect_usual g region out).symm.trans (h σ out)

variable {g : WalkedGrid} {e : Handle}

theorem exists_collectRange (h : g.grid.Filed) (range : CellRange) (accepts : Box → Bool) :
    ∃ es, HandsOver (fun _ _ out => g.collectRange range accepts out) es ∧ es.Nodup ∧
      ∀ e, e ∈ es ↔ ∃ block k, g.grid.ranges[e]? = some block ∧ block.contains k = true ∧
        range.contains k = true ∧ accepts (g.grid.cellBounds k) = true := by
  obtain ⟨hnodup, hwithin, hall⟩ := g.walk.keysWithin_spec g.grid range
  have hclip {k : CellKey} : Grid.InClip (some range) k ↔ range.contains k = true := by
    simp [Grid.InClip]
  by_cases hempty : (range.isEmpty || g.grid.cells.isEmpty) = true
  · refine ⟨[], fun σ _ out => if_pos hempty, List.nodup_nil, fun e => ?_⟩
    simp only [List.not_mem_nil, false_iff]
    rintro ⟨block, k, hblock, hcontains, hrange, -⟩
    rcases (Bool.or_eq_true _ _).mp hempty with hnone | hnone
    · rw [CellRange.isEmpty_eq_false_of_contains hrange] at hnone
      cases hnone
    · have hmem := Grid.mem_cells
        (Array.ne_empty_of_mem ((Grid.mem_iff_of_range h hblock k).mpr hcontains))
      rw [Std.ExtTreeMap.isEmpty_iff.mp hnone] at hmem
      exact Std.ExtTreeMap.not_mem_empty hmem
  · refine ⟨_, fun σ _ out => (if_neg hempty).trans (Grid.handsOver_emitCells h
      (fun k hk => hclip.mpr (hwithin k hk)) σ out), Grid.nodup_owned h hnodup, fun e => ?_⟩
    rw [Grid.mem_owned h fun k hk hin => hall k hk (hclip.mp hin)]
    simp only [hclip]

/-- A query does not fail whatever the way, and hands over, once each, the entities with an
accepted cell in their block. -/
theorem exists_answer (h : g.grid.Filed) (region : Region) :
    ∃ es, HandsOver (fun _ _ out => SpatialIndex.collect g region out) es ∧ es.Nodup ∧
      ∀ e, e ∈ es ↔ ∃ block k, g.grid.ranges[e]? = some block ∧ block.contains k = true ∧
        g.grid.Accepts region k := by
  cases region with
  | point p =>
      refine ⟨(g.grid.cellEntities (g.grid.cellKey p)).toList, fun σ _ out => ?_, h.nodup _,
        fun e => ?_⟩
      · change g.grid.collect (.point p) out = _
        unfold Grid.collect
        cases hget : g.grid.cells[g.grid.cellKey p]? with
        | none =>
            rw [Grid.cellEntities_of_none hget]
            simp only [hget]
            rfl
        | some occupants =>
            rw [Grid.cellEntities_of_some hget]
            simp only [hget]
            exact handsOver_putAll occupants σ out
      · rw [Array.mem_toList_iff, h.mem_iff]
        simp [Grid.Accepts]
  | sphere center radius =>
      by_cases hradius : 0 ≤ radius
      · obtain ⟨es, hhands, hnodup, hmem⟩ := exists_collectRange h
          (g.grid.cellRange (.around center (.splat radius))) (·.intersectsSphere center radius)
        refine ⟨es, fun σ _ out => (if_pos hradius).trans (hhands σ out), hnodup, fun e => ?_⟩
        rw [hmem]
        simp only [Grid.Accepts, hradius, true_and]
      · refine ⟨[], fun σ _ out => if_neg hradius, List.nodup_nil, fun e => ?_⟩
        simp [Grid.Accepts, hradius]
  | box query =>
      obtain ⟨es, hhands, hnodup, hmem⟩ :=
        exists_collectRange h (g.grid.cellRange query) fun _ => true
      refine ⟨es, hhands, hnodup, fun e => ?_⟩
      rw [hmem]
      simp only [Grid.Accepts, and_true]
  | frustum f =>
      refine ⟨_, Grid.handsOver_emitCells h fun k _ => ?_,
        Grid.nodup_owned h (g.walk.nodup_occupied g.grid), fun e => ?_⟩
      · exact fun _ hclip => absurd hclip (by simp)
      · rw [Grid.mem_owned h fun k hk _ => g.walk.mem_occupied g.grid hk]
        simp [Grid.Accepts, Grid.InClip]

theorem mem_query (h : g.grid.Filed) (region : Region) :
    e ∈ SpatialIndex.query g region ↔ ∃ block k, g.grid.ranges[e]? = some block ∧
      block.contains k = true ∧ g.grid.Accepts region k := by
  obtain ⟨es, hhands, -, hmem⟩ := exists_answer h region
  rw [(query_perm_of_handsOver Handle.sort_perm hhands).mem_iff, hmem]

theorem nodup_query (h : g.grid.Filed) (region : Region) : (SpatialIndex.query g region).Nodup := by
  obtain ⟨es, hhands, hnodup, -⟩ := exists_answer h region
  rw [(query_perm_of_handsOver Handle.sort_perm hhands).nodup_iff]
  exact hnodup

theorem query_usual (g : Grid) (region : Region) :
    SpatialIndex.query (⟨g, .usual⟩ : WalkedGrid) region = SpatialIndex.query g region := by
  unfold SpatialIndex.query SpatialIndex.queryInto
  rw [collect_usual]
  rfl

/-- Of two filed grids with cells of one size and the same blocks, a query takes the same
entities, in some order. -/
theorem exists_same_answer (g g' : WalkedGrid) (h : g.grid.Filed) (h' : g'.grid.Filed)
    (hsize : g'.grid.config.cellSize = g.grid.config.cellSize)
    (hranges : ∀ e : Handle, g'.grid.ranges[e]? = g.grid.ranges[e]?) (region : Region) :
    ∃ es es', HandsOver (fun _ _ out => SpatialIndex.collect g region out) es ∧
      HandsOver (fun _ _ out => SpatialIndex.collect g' region out) es' ∧ es.Perm es' := by
  obtain ⟨es, hhands, hnodup, hmem⟩ := exists_answer h region
  obtain ⟨es', hhands', hnodup', hmem'⟩ := exists_answer h' region
  refine ⟨es, es', hhands, hhands', (List.perm_ext_iff_of_nodup hnodup hnodup').mpr ?_⟩
  intro e
  rw [hmem, hmem', hranges]
  simp only [Grid.accepts_congr hsize]

/-- The way is seen at most in the order of the answer, and not even there if answers are
sorted. -/
theorem query_perm {g : Grid} (h : g.Filed) (walk walk' : Walk) (region : Region) :
    (SpatialIndex.query (⟨g, walk⟩ : WalkedGrid) region).Perm
        (SpatialIndex.query (⟨g, walk'⟩ : WalkedGrid) region) ∧
      (g.config.deterministic = true →
        SpatialIndex.query (⟨g, walk⟩ : WalkedGrid) region =
          SpatialIndex.query (⟨g, walk'⟩ : WalkedGrid) region) := by
  obtain ⟨es, es', hhands, hhands', hsame⟩ :=
    exists_same_answer ⟨g, walk⟩ ⟨g, walk'⟩ h h rfl (fun _ => rfl) region
  constructor
  · exact query_perm_of_perm hhands hhands' Handle.sort_perm hsame
  · intro hsorted
    have hsorted' (walk : Walk) : SpatialIndex.isDeterministic (⟨g, walk⟩ : WalkedGrid) = true :=
      hsorted
    exact (answerAlike_of_perm hhands hhands' (hsorted' walk) (hsorted' walk') hsame).query_eq

end WalkedGrid

namespace Grid

variable {g : Grid}

/-- An entity is in the answer to a query exactly if the query takes a cell of its block. -/
theorem mem_query_iff (h : g.Filed) {e : Handle} {block : CellRange}
    (hblock : g.ranges[e]? = some block) (region : Region) :
    e ∈ SpatialIndex.query g region ↔ ∃ k, block.contains k = true ∧ g.Accepts region k := by
  rw [← WalkedGrid.query_usual, WalkedGrid.mem_query h]
  simp only [hblock, Option.some.injEq, ↓existsAndEq, true_and]

/-- After any changes to a new grid a query does not fail, and along every way it reports
exactly the entities with an accepted cell in their block, each once. What collides in the
cache of owners does not matter, since the entities are arbitrary. A grid by itself goes
one of the ways. -/
theorem accepted_once_of_run {config : GridConfig} {g₀ : Grid}
    (hcreate : (create config).1 = .ok g₀) (changes : List Change) (walk : Walk)
    (region : Region) :
    let g := SpatialIndex.run g₀ changes
    let answer := SpatialIndex.query (⟨g, walk⟩ : WalkedGrid) region
    (∃ out, SpatialIndex.collect (⟨g, walk⟩ : WalkedGrid) region (#[] : Array Handle) = .ok out) ∧
    answer.Nodup ∧
    (∀ e, e ∈ answer ↔ ∃ block k, g.ranges[e]? = some block ∧ block.contains k = true ∧
      g.Accepts region k) ∧
    SpatialIndex.query g region = SpatialIndex.query (⟨g, .usual⟩ : WalkedGrid) region := by
  intro g answer
  obtain ⟨hfiled, -⟩ := filed_of_create hcreate changes
  obtain ⟨es, hhands, -⟩ := WalkedGrid.exists_answer (g := ⟨g, walk⟩) hfiled region
  refine ⟨?_, WalkedGrid.nodup_query hfiled region, fun e => WalkedGrid.mem_query hfiled region,
    (WalkedGrid.query_usual g region).symm⟩
  exact ⟨_, (hhands (Array Handle) #[]).trans (foldlM_put_array es #[])⟩

/-- Two entities over the same cells, whose identifiers share a place in the cache, are both
reported when the occupied cells are met from the last to the first. -/
theorem accepted_once_of_run_backward :
    let backward : Walk :=
      ⟨fun g => g.cells.keys.reverse, fun _ => List.reverse_perm _, fun _ _ => false⟩
    let g := SpatialIndex.run (empty {})
      [.update ⟨1, 0⟩ .zero (some ⟨.splat (-100), .splat 100⟩),
        .update ⟨65, 0⟩ .zero (some ⟨.splat (-100), .splat 100⟩)]
    let answer := SpatialIndex.query (⟨g, backward⟩ : WalkedGrid) (.sphere (.splat 10) 90)
    answer.Nodup ∧ ⟨1, 0⟩ ∈ answer ∧ ⟨65, 0⟩ ∈ answer := by
  intro backward g answer
  have hcreate : (create {}).1 = .ok (empty {}) := create_eq_ok (by decide +kernel)
  have hblocks : g.ranges[(⟨1, 0⟩ : Handle)]? = some ⟨⟨-2, -2, -2⟩, ⟨1, 1, 1⟩⟩ ∧
      g.ranges[(⟨65, 0⟩ : Handle)]? = some ⟨⟨-2, -2, -2⟩, ⟨1, 1, 1⟩⟩ := by
    decide +kernel
  have haccepts : g.Accepts (.sphere (.splat 10) 90) ⟨0, 0, 0⟩ := by
    change _ ∧ _ ∧ _
    decide +kernel
  obtain ⟨-, hnodup, hmem, -⟩ := accepted_once_of_run hcreate
    [.update ⟨1, 0⟩ .zero (some ⟨.splat (-100), .splat 100⟩),
      .update ⟨65, 0⟩ .zero (some ⟨.splat (-100), .splat 100⟩)] backward (.sphere (.splat 10) 90)
  exact ⟨hnodup, (hmem _).mpr ⟨_, _, hblocks.1, by decide, haccepts⟩,
    (hmem _).mpr ⟨_, _, hblocks.2, by decide, haccepts⟩⟩

end Grid

end Broadphase
