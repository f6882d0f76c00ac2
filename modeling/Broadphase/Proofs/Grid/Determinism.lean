import Mathlib
import Broadphase.Proofs.Grid.Walk

/-!
What a grid that sorts its answers does not show. Its past reorders the lists of its cells,
decides which cells have storage and with their number whether a block is gone through cell
by cell. None of this is in an answer, which is determined by the size of the cells and by
what is tracked: two grids that track the same boxes answer alike, however they came to it.
-/

namespace Broadphase

open SpatialIndex

namespace WalkedGrid

/-- If both grids sort their answers, these are alike. -/
theorem answerAlike_of_ranges {g g' : WalkedGrid} (h : g.grid.Filed) (h' : g'.grid.Filed)
    (hsize : g'.grid.config.cellSize = g.grid.config.cellSize)
    (hsorted : g.grid.config.deterministic = true)
    (hsorted' : g'.grid.config.deterministic = true)
    (hranges : ∀ e : Handle, g'.grid.ranges[e]? = g.grid.ranges[e]?) (region : Region) :
    AnswerAlike g g' region := by
  obtain ⟨es, es', hhands, hhands', hperm⟩ := exists_same_answer g g' h h' hsize hranges region
  exact answerAlike_of_perm hhands hhands' hsorted hsorted' hperm

end WalkedGrid

namespace Grid

/-- Two new grids that sort their answers and have cells of one size answer every query alike
once they track the same boxes, whatever changes led to this, whether they keep the storage
of emptied cells and along whatever ways they go through their cells. The answer has the
entities whose box has a cell that the query takes, in ascending order; and a grid by itself
answers like one that goes any way. -/
theorem history_unobservable_of_run {config config' : GridConfig} {g₀ g₀' : Grid}
    (hcreate : (create config).1 = .ok g₀) (hcreate' : (create config').1 = .ok g₀')
    (hsize : config'.cellSize = config.cellSize) (hsorted : config.deterministic = true)
    (hsorted' : config'.deterministic = true) {changes changes' : List Change}
    (htracked : ∀ e, trackedBoxes changes' e = trackedBoxes changes e) (walk walk' : Walk)
    (region : Region) :
    let g : WalkedGrid := ⟨run g₀ changes, walk⟩
    let g' : WalkedGrid := ⟨run g₀' changes', walk'⟩
    AnswerAlike g g' region ∧ AnswerAlike (run g₀ changes) g region ∧
      (query g region).Pairwise (fun a b => compare a b = .lt) ∧
      ∀ e, e ∈ query g region ↔ ∃ box k, trackedBoxes changes e = some box ∧
        (g₀.cellRange box).contains k = true ∧ g₀.Accepts region k := by
  intro g g'
  obtain ⟨hfiled, hconfig, hranges⟩ := filed_of_create hcreate changes
  obtain ⟨hfiled', hconfig', hranges'⟩ := filed_of_create hcreate' changes'
  obtain ⟨rfl, -⟩ := eq_empty_of_create hcreate
  have hcells : (run g₀' changes').config.cellSize =
      (run (empty config) changes).config.cellSize := by
    rw [hconfig, hconfig', hsize]
  have hsame (e : Handle) :
      (run g₀' changes').ranges[e]? = (run (empty config) changes).ranges[e]? := by
    rw [hranges, hranges', htracked, funext (cellRange_congr hcells)]
  have hstart : (run (empty config) changes).config.cellSize =
      (empty config : Grid).config.cellSize := congrArg GridConfig.cellSize hconfig
  rw [← hconfig] at hsorted
  rw [← hconfig'] at hsorted'
  refine ⟨WalkedGrid.answerAlike_of_ranges hfiled hfiled' hcells hsorted hsorted' hsame region,
    ?_, ?_, ?_⟩
  · obtain ⟨es, es', hhands, hhands', hperm⟩ := WalkedGrid.exists_same_answer
      ⟨run (empty config) changes, .usual⟩ g hfiled hfiled rfl (fun _ => rfl) region
    exact answerAlike_of_perm (WalkedGrid.handsOver_usual hhands) hhands' hsorted hsorted hperm
  · obtain ⟨es, hhands, hnodup, -⟩ := WalkedGrid.exists_answer (g := g) hfiled region
    have hsorts : isDeterministic g = true := hsorted
    rw [query_of_handsOver hhands, if_pos hsorts]
    exact Handle.pairwise_compare_sort hnodup
  · intro e
    have haccepts (k : CellKey) : g.grid.Accepts region k ↔ (empty config).Accepts region k :=
      accepts_congr hstart region k
    rw [WalkedGrid.mem_query hfiled, hranges, funext (cellRange_congr hstart)]
    simp only [haccepts, Option.map_eq_some_iff, ↓existsAndEq, and_true, exists_and_left]

/-- A grid that keeps no storage, with an entity that came and went and one that moved, goes
backward through its occupied cells and still answers like a grid with the two entities
only. -/
theorem history_unobservable_of_run_backward :
    let backward : Walk :=
      ⟨fun g => g.cells.keys.reverse, fun _ => List.reverse_perm _, fun _ _ => false⟩
    let g : WalkedGrid := ⟨run (empty { deterministic := true })
      [.update ⟨1, 0⟩ .zero (some ⟨.splat (-100), .splat 100⟩), .update ⟨65, 0⟩ .zero none], .usual⟩
    let g' : WalkedGrid := ⟨run (empty { deterministic := true, pooling := false })
      [.update ⟨65, 0⟩ (.splat 90) none, .update ⟨2, 0⟩ .zero none,
        .update ⟨1, 0⟩ .zero (some ⟨.splat (-100), .splat 100⟩), .remove ⟨2, 0⟩,
        .update ⟨65, 0⟩ .zero none], backward⟩
    query g (.sphere (.splat 10) 90) = query g' (.sphere (.splat 10) 90) ∧
      ⟨65, 0⟩ ∈ query g (.sphere (.splat 10) 90) := by
  intro backward g g'
  have hcreate : (create { deterministic := true }).1 = .ok (empty { deterministic := true }) :=
    create_eq_ok (by decide +kernel)
  have hcreate' : (create { deterministic := true, pooling := false }).1 =
      .ok (empty { deterministic := true, pooling := false }) :=
    create_eq_ok (by decide +kernel)
  have htracked (e : Handle) : trackedBoxes
      [.update ⟨65, 0⟩ (.splat 90) none, .update ⟨2, 0⟩ .zero none,
        .update ⟨1, 0⟩ .zero (some ⟨.splat (-100), .splat 100⟩), .remove ⟨2, 0⟩,
        .update ⟨65, 0⟩ .zero none] e =
      trackedBoxes [.update ⟨1, 0⟩ .zero (some ⟨.splat (-100), .splat 100⟩),
        .update ⟨65, 0⟩ .zero none] e := by
    simp only [trackedBoxes, List.foldl_cons, List.foldl_nil, Change.track]
    grind
  obtain ⟨halike, -, -, hmem⟩ := history_unobservable_of_run hcreate hcreate' rfl rfl rfl htracked
    .usual backward (.sphere (.splat 10) 90)
  refine ⟨halike.query_eq, (hmem _).mpr ⟨.ofPoint .zero, ⟨0, 0, 0⟩, ?_, by decide +kernel, ?_⟩⟩
  · decide
  · change _ ∧ _ ∧ _
    decide +kernel

end Grid

end Broadphase
