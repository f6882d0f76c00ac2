import Mathlib
import Broadphase.Proofs.Tracking

/-!
What an answer may name. Whatever corners the boxes have and whatever the region is, an
answer names tracked entities only and none of them twice, and a sorted answer ascends from
each entity to the next. This holds of the part of an array or of a buffer that a query adds.
-/

namespace Broadphase

open SpatialIndex

variable {ι : Type} [SpatialIndex ι] {index : ι} {changes : List Change} {region : Region}

/-- A list of tracked entities, each named once, in order if the index sorts its answers. -/
structure Names (index : ι) (changes : List Change) (es : List Handle) : Prop where
  tracked : ∀ e ∈ es, contains index e = true ∧ LastUpdated changes e
  nodup : es.Nodup
  ascending : isDeterministic index = true → es.Pairwise fun a b => compare a b = .lt

/-- Each form of a query adds a list of tracked entities, named once and in order. An array
takes them without fail. -/
structure NamesTracked (index : ι) (changes : List Change) (region : Region) : Prop where
  collects : ∀ seed : Array Handle, ∃ out, collect index region seed = .ok out
  query : Names index changes (query index region)
  queryInto : ∀ seed, ∃ found,
    queryInto index region seed = seed ++ found ∧ Names index changes found.toList
  querySpan : ∀ buffer count written, querySpan index region buffer = some (count, written) →
    ∃ found rest, written.toList = found ++ rest ∧ found.length = count ∧
      Names index changes found

/-- What is handed over without repetition is named once in each form. -/
theorem namesTracked_of_handsOver {es : List Handle} (htracks : TracksHistory index changes)
    (h : HandsOver (fun _ _ out => collect index region out) es) (hnodup : es.Nodup)
    (htracked : ∀ e ∈ es, LastUpdated changes e) : NamesTracked index changes region := by
  have hperm := query_perm_of_handsOver Handle.sort_perm h
  have hnames : Names index changes (SpatialIndex.query index region) := by
    refine ⟨?_, hperm.nodup_iff.mpr hnodup, ?_⟩
    · intro e hmem
      have hlast := htracked e (hperm.mem_iff.mp hmem)
      exact ⟨(htracks.contains_iff e).mpr hlast, hlast⟩
    · intro hsorted
      rw [query_of_handsOver h, if_pos hsorted]
      exact Handle.pairwise_compare_sort hnodup
  refine ⟨?_, hnames, ?_, ?_⟩
  · intro seed
    exact ⟨_, collect_array_of_handsOver h seed⟩
  · intro seed
    refine ⟨(SpatialIndex.query index region).toArray, ?_, hnames⟩
    rw [queryInto_of_handsOver h, query_of_handsOver h]
  · intro buffer count written hspan
    rw [querySpan_of_handsOver Handle.sort_perm h] at hspan
    split_ifs at hspan
    obtain ⟨rfl, rfl⟩ := Prod.mk.inj (Option.some.inj hspan)
    exact ⟨SpatialIndex.query index region, _, rfl, hperm.length_eq, hnames⟩

/-- Along every way through its cells a grid hands over tracked entities, each once. -/
theorem WalkedGrid.exists_tracked {config : GridConfig} {g₀ : Grid}
    (hcreate : (Grid.create config).1 = .ok g₀) (changes : List Change) (walk : Walk)
    (region : Region) :
    ∃ es, HandsOver
        (fun _ _ out => collect (⟨run g₀ changes, walk⟩ : WalkedGrid) region out) es ∧
      es.Nodup ∧ ∀ e ∈ es, LastUpdated changes e := by
  obtain ⟨es, hhands, hnodup, hmem⟩ := WalkedGrid.exists_answer (g := ⟨run g₀ changes, walk⟩)
    (Grid.filed_of_create hcreate changes).1 region
  refine ⟨es, hhands, hnodup, ?_⟩
  intro e he
  obtain ⟨block, k, hblock, -⟩ := (hmem e).mp he
  rw [← (TracksHistory.grid hcreate changes).contains_iff]
  exact Std.ExtTreeMap.contains_eq_isSome_getElem?.trans (Option.isSome_of_mem hblock)

/-- The lists of the nodes on the walk name each tracked entity once, so what is taken from
them does too. -/
theorem Tree.exists_tracked {layout : Layout} {config : TreeConfig} {t₀ : Tree layout}
    (hcreate : (Tree.create layout config).1 = .ok t₀) (changes : List Change)
    (region : Region) :
    ∃ es, HandsOver (fun _ _ out => collect (run t₀ changes) region out) es ∧ es.Nodup ∧
      ∀ e ∈ es, LastUpdated changes e := by
  obtain ⟨hwell, -, hbox⟩ := wellFormed_of_create hcreate changes
  obtain ⟨es, hhands, hsublist⟩ := exists_handsOver hwell region
  refine ⟨es, hhands, hsublist.nodup
    (nodup_flatMap_held hwell.placed (nodup_reachableSlots hwell.arena)), ?_⟩
  intro e he
  obtain ⟨slot, -, hheld⟩ := List.mem_flatMap.mp (hsublist.subset he)
  obtain ⟨box, hrecord⟩ := (mem_held hwell.placed).mp hheld
  rw [← isSome_trackedBoxes, ← hbox, boxOf_of_record hrecord]
  rfl

namespace AnyIndex

variable {index₀ : AnyIndex}

/-- No query of an index fails, of whichever kind the index is, and it hands over tracked
entities, each once. -/
theorem exists_tracked (hcreated : index₀.Created) (changes : List Change) (region : Region) :
    ∃ es, HandsOver (fun _ _ out => collect (run index₀ changes) region out) es ∧ es.Nodup ∧
      ∀ e ∈ es, LastUpdated changes e := by
  cases hcreated with
  | @grid config g hcreate =>
      obtain ⟨es, hhands, hes⟩ := WalkedGrid.exists_tracked hcreate changes .usual region
      rw [run_grid]
      exact ⟨es, WalkedGrid.handsOver_usual hhands, hes⟩
  | quadtree hcreate =>
      rw [run_quadtree]
      exact Tree.exists_tracked hcreate changes region
  | octree hcreate =>
      rw [run_octree]
      exact Tree.exists_tracked hcreate changes region
  | scan deterministic =>
      obtain ⟨hnodup, hmem⟩ := LinearScan.answer_run deterministic changes region
      rw [run_scan]
      refine ⟨_, LinearScan.handsOver_collect _ region, hnodup, ?_⟩
      intro e he
      obtain ⟨box, hbox, -⟩ := (hmem e).mp he
      rw [← isSome_trackedBoxes, hbox]
      rfl

/-- After any changes to a new index of any kind, with boxes of any kind, what a query of any
kind adds to an array or a buffer are tracked entities, none of them twice, and they ascend
if answers are sorted. For a grid they do along every way through its cells. -/
theorem names_tracked_of_run (hcreated : index₀.Created) (changes : List Change)
    (region : Region) :
    let index := run index₀ changes
    NamesTracked index changes region ∧
    ∀ g walk, index = .grid g → NamesTracked (⟨g, walk⟩ : WalkedGrid) changes region := by
  intro index
  have htracks := tracksHistory_run hcreated changes
  obtain ⟨es, hhands, hnodup, htracked⟩ := exists_tracked hcreated changes region
  refine ⟨namesTracked_of_handsOver htracks hhands hnodup htracked, ?_⟩
  intro g walk hgrid
  obtain ⟨config, g₀, hcreate, rfl⟩ := exists_create_of_run_eq_grid hcreated hgrid
  obtain ⟨es, hhands, hnodup, htracked⟩ :=
    WalkedGrid.exists_tracked hcreate changes walk region
  have htracks : TracksHistory (⟨run g₀ changes, walk⟩ : WalkedGrid) changes :=
    (TracksHistory.grid hcreate changes).map (f := fun g => (⟨g, walk⟩ : WalkedGrid))
      (fun _ => rfl) (fun _ => rfl) rfl rfl
  exact namesTracked_of_handsOver htracks hhands hnodup htracked

/-- A ball that an octree answers with two entities of one identifier, of which one lies
nowhere and the other has its corners in reverse order, names them in order behind what an
array has, and does not name an entity that was taken out. -/
theorem names_tracked_of_run_octree :
    let index := run (AnyIndex.octree (Tree.empty { deterministic := true }))
      [.update ⟨1, 1⟩ (.splat (0 / 0)) none, .update ⟨2, 0⟩ .zero none,
        .update ⟨1, 0⟩ .zero (some ⟨.splat 10, .splat (-10)⟩), .remove ⟨2, 0⟩]
    let answer := query index (.sphere .zero 2000)
    contains index ⟨1, 1⟩ = true ∧ ⟨2, 0⟩ ∉ answer ∧
      answer.Pairwise (fun a b => compare a b = .lt) ∧
      queryInto index (.sphere .zero 2000) #[⟨9, 9⟩] = #[⟨9, 9⟩, ⟨1, 0⟩, ⟨1, 1⟩] := by
  intro index answer
  have hcreated : (AnyIndex.octree (Tree.empty { deterministic := true })).Created :=
    .octree (Tree.create_eq_ok (by decide +kernel))
  have hanswer : answer = [⟨1, 0⟩, ⟨1, 1⟩] := by decide +kernel
  obtain ⟨-, hquery, -, -⟩ := (names_tracked_of_run hcreated
    [.update ⟨1, 1⟩ (.splat (0 / 0)) none, .update ⟨2, 0⟩ .zero none,
      .update ⟨1, 0⟩ .zero (some ⟨.splat 10, .splat (-10)⟩), .remove ⟨2, 0⟩]
    (.sphere .zero 2000)).1
  have huntracked : contains index ⟨2, 0⟩ = false := by decide +kernel
  refine ⟨(hquery.tracked ⟨1, 1⟩ ?_).1, ?_, hquery.ascending (by decide +kernel), by decide +kernel⟩
  · change _ ∈ answer
    rw [hanswer]
    decide
  · intro hmem
    cases (hquery.tracked _ hmem).1.symm.trans huntracked

end AnyIndex

end Broadphase
