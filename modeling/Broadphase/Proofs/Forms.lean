import Mathlib
import Broadphase.AnyIndex
import Broadphase.Proofs.Grid.Walk
import Broadphase.Proofs.LinearScan
import Broadphase.Proofs.Tree.PointQuery

/-!
The three forms of a query. Every index hands over the elements of some list, and does so
alike to every receiver. An array takes all of them, and a buffer refuses one only if the
list is longer than the buffer, so the three forms of a query give the same list.
-/

namespace Broadphase

open SpatialIndex

/-- The forms of a query give what it gives by itself: behind what an array has, and at the
front of a buffer. The slots of the buffer behind the answer stay as they are, and a buffer
overflows exactly if it is shorter than the answer. -/
structure FormsAgree {ι : Type} [SpatialIndex ι] (index : ι) (region : Region) : Prop where
  queryInto_eq : ∀ seed, queryInto index region seed = seed ++ (query index region).toArray
  overflow_iff : ∀ buffer : Array Handle, buffer.size < 2147483648 →
    (spanCount (querySpan index region buffer) = overflowCount ↔
      buffer.size < (query index region).length)
  querySpan_eq : ∀ buffer : Array Handle, buffer.size < 2147483648 →
    (query index region).length ≤ buffer.size →
      (spanCount (querySpan index region buffer)).toInt = (query index region).length ∧
      querySpan index region buffer = some ((query index region).length,
        (query index region ++ buffer.toList.drop (query index region).length).toArray)

namespace SpatialIndex

theorem toInt_spanCount {count : Nat} (h : count < 2147483648) (buffer : Array Handle) :
    (spanCount (some (count, buffer))).toInt = count := by
  rw [spanCount, if_pos h]
  exact Int32.toInt_ofNat_of_lt h

theorem spanCount_ne_overflow {count : Nat} (h : count < 2147483648) (buffer : Array Handle) :
    spanCount (some (count, buffer)) ≠ overflowCount := by
  intro heq
  have hcount := toInt_spanCount h buffer
  have hmark : overflowCount.toInt = -1 := by decide
  rw [heq] at hcount
  omega

/-- What every receiver is handed alike is the answer in all three forms. -/
theorem formsAgree_of_handsOver {ι : Type} [SpatialIndex ι] {index : ι} {region : Region}
    {es : List Handle} (h : HandsOver (fun _ _ out => collect index region out) es) :
    FormsAgree index region := by
  have hspan := querySpan_of_handsOver Handle.sort_perm h
  rw [← (query_perm_of_handsOver Handle.sort_perm h).length_eq] at hspan
  constructor
  · intro seed
    rw [queryInto_of_handsOver h, query_of_handsOver h]
  · intro buffer hsize
    rw [hspan]
    split_ifs with hfits
    · exact iff_of_false (spanCount_ne_overflow (by omega) _) (by omega)
    · exact iff_of_true rfl (by omega)
  · intro buffer hsize hfits
    rw [hspan, if_pos hfits]
    exact ⟨toInt_spanCount (by omega) _, rfl⟩

end SpatialIndex

namespace AnyIndex

/-- An index as it is built, before any change. -/
inductive Created : AnyIndex → Prop where
  | grid {config : GridConfig} {g : Grid} : (Grid.create config).1 = .ok g → Created (.grid g)
  | quadtree {config : TreeConfig} {t : Quadtree} :
      (Tree.create .quad config).1 = .ok t → Created (.quadtree t)
  | octree {config : TreeConfig} {t : Octree} :
      (Tree.create .oct config).1 = .ok t → Created (.octree t)
  | scan (deterministic : Bool) : Created (.scan (.empty deterministic))

theorem run_grid (g : Grid) (changes : List Change) :
    run (AnyIndex.grid g) changes = AnyIndex.grid (run g changes) :=
  run_map (fun _ _ => rfl) g changes

theorem run_quadtree (t : Quadtree) (changes : List Change) :
    run (AnyIndex.quadtree t) changes = AnyIndex.quadtree (run t changes) :=
  run_map (fun _ _ => rfl) t changes

theorem run_octree (t : Octree) (changes : List Change) :
    run (AnyIndex.octree t) changes = AnyIndex.octree (run t changes) :=
  run_map (fun _ _ => rfl) t changes

theorem run_scan (s : LinearScan) (changes : List Change) :
    run (AnyIndex.scan s) changes = AnyIndex.scan (run s changes) :=
  run_map (fun _ _ => rfl) s changes

variable {index₀ : AnyIndex}

/-- No query of an index fails, of whichever kind the index is. -/
theorem exists_handsOver (h : index₀.Created) (changes : List Change) (region : Region) :
    ∃ es, HandsOver (fun _ _ out => collect (run index₀ changes) region out) es := by
  cases h with
  | @grid config g hcreate =>
      obtain ⟨hfiled, -⟩ := Grid.filed_of_create hcreate changes
      obtain ⟨es, hhands, -⟩ :=
        WalkedGrid.exists_answer (g := ⟨run g changes, .usual⟩) hfiled region
      rw [run_grid]
      exact ⟨es, WalkedGrid.handsOver_usual hhands⟩
  | @quadtree config t hcreate =>
      obtain ⟨es, hhands, -⟩ :=
        Tree.exists_handsOver (Tree.wellFormed_of_create hcreate changes).1 region
      rw [run_quadtree]
      exact ⟨es, hhands⟩
  | @octree config t hcreate =>
      obtain ⟨es, hhands, -⟩ :=
        Tree.exists_handsOver (Tree.wellFormed_of_create hcreate changes).1 region
      rw [run_octree]
      exact ⟨es, hhands⟩
  | scan deterministic =>
      rw [run_scan]
      exact ⟨_, LinearScan.handsOver_collect _ region⟩

/-- An index that is a grid after changes was built as one. -/
theorem exists_create_of_run_eq_grid (h : index₀.Created) {changes : List Change} {g : Grid}
    (hgrid : run index₀ changes = .grid g) :
    ∃ config g₀, (Grid.create config).1 = .ok g₀ ∧ run g₀ changes = g := by
  cases h with
  | @grid config g₀ hcreate =>
      exact ⟨config, g₀, hcreate, AnyIndex.grid.inj ((run_grid g₀ changes).symm.trans hgrid)⟩
  | quadtree => cases (run_quadtree _ changes).symm.trans hgrid
  | octree => cases (run_octree _ changes).symm.trans hgrid
  | scan => cases (run_scan _ changes).symm.trans hgrid

theorem filed_of_run_eq_grid (h : index₀.Created) {changes : List Change} {g : Grid}
    (hgrid : run index₀ changes = .grid g) : g.Filed := by
  obtain ⟨config, g₀, hcreate, rfl⟩ := exists_create_of_run_eq_grid h hgrid
  exact (Grid.filed_of_create hcreate changes).1

/-- After any changes to a new index of any kind, the three forms of every query agree. For
a grid they do along every way through its cells, and the answers along two ways have the
same elements, and are the same if answers are sorted. -/
theorem forms_agree_of_run (hcreated : index₀.Created) (changes : List Change)
    (region : Region) :
    let index := run index₀ changes
    FormsAgree index region ∧
    ∀ g walk, index = .grid g →
      FormsAgree (⟨g, walk⟩ : WalkedGrid) region ∧
      (query (⟨g, walk⟩ : WalkedGrid) region).Perm (query index region) ∧
      (g.config.deterministic = true →
        query (⟨g, walk⟩ : WalkedGrid) region = query index region) := by
  intro index
  obtain ⟨es, hhands⟩ := exists_handsOver hcreated changes region
  refine ⟨formsAgree_of_handsOver hhands, ?_⟩
  intro g walk hgrid
  have hfiled := filed_of_run_eq_grid hcreated hgrid
  have husual : query (⟨g, .usual⟩ : WalkedGrid) region = query index region := by
    rw [WalkedGrid.query_usual, hgrid]
    rfl
  obtain ⟨es', hhands', -⟩ := WalkedGrid.exists_answer (g := ⟨g, walk⟩) hfiled region
  rw [← husual]
  exact ⟨formsAgree_of_handsOver hhands', WalkedGrid.query_perm hfiled walk .usual region⟩

/-- Two matches are appended to an array, overflow a buffer of one slot, and leave the last
of three slots as it is. -/
theorem forms_agree_of_run_grid :
    let index := run (AnyIndex.grid (Grid.empty {}))
      [.update ⟨2, 0⟩ (.splat 10) none, .update ⟨1, 0⟩ .zero (some ⟨.splat (-100), .splat 100⟩)]
    queryInto index (.box ⟨.zero, .splat 20⟩) #[⟨9, 9⟩] = #[⟨9, 9⟩, ⟨2, 0⟩, ⟨1, 0⟩] ∧
      spanCount (querySpan index (.box ⟨.zero, .splat 20⟩) #[⟨9, 9⟩]) = overflowCount ∧
      querySpan index (.box ⟨.zero, .splat 20⟩) #[⟨7, 7⟩, ⟨8, 8⟩, ⟨9, 9⟩] =
        some (2, #[⟨2, 0⟩, ⟨1, 0⟩, ⟨9, 9⟩]) := by
  intro index
  have hcreated : (AnyIndex.grid (Grid.empty {})).Created :=
    .grid (Grid.create_eq_ok (by decide +kernel))
  have hquery : query index (.box ⟨.zero, .splat 20⟩) = [⟨2, 0⟩, ⟨1, 0⟩] := by
    decide +kernel
  obtain ⟨hinto, hoverflow, hspan⟩ := (forms_agree_of_run hcreated
    [.update ⟨2, 0⟩ (.splat 10) none, .update ⟨1, 0⟩ .zero (some ⟨.splat (-100), .splat 100⟩)]
    (.box ⟨.zero, .splat 20⟩)).1
  rw [hquery] at hinto hoverflow hspan
  refine ⟨hinto _, (hoverflow _ (by decide)).mpr (by decide), ?_⟩
  exact (hspan #[⟨7, 7⟩, ⟨8, 8⟩, ⟨9, 9⟩] (by decide) (by decide)).2

end AnyIndex

end Broadphase
