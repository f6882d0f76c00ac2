import Mathlib
import Broadphase.Proofs.Forms
import Broadphase.Proofs.Tree.Partition

/-!
What an index tracks. An entity is tracked exactly if the last change that concerns it is
an update, and each tracked entity is counted once. Taking out an entity that is not
tracked leaves an index as it is.
-/

namespace Broadphase

open SpatialIndex

/-- Whether a change tells if an entity is tracked. To forget everything does so for all. -/
def Change.Concerns (e : Handle) : Change → Prop
  | .update other _ _ => other = e
  | .remove other => other = e
  | .clear => True

/-- The last change that concerns an entity is an update. -/
def LastUpdated (changes : List Change) (e : Handle) : Prop :=
  ∃ before position bounds after, changes = before ++ .update e position bounds :: after ∧
    ∀ change ∈ after, ¬ change.Concerns e

/-- The last change that concerns an entity is an update, and the box is the one it gives. -/
def LatestBox (changes : List Change) (e : Handle) (box : Box) : Prop :=
  ∃ before position bounds after, changes = before ++ .update e position bounds :: after ∧
    (∀ change ∈ after, ¬ change.Concerns e) ∧ extent position bounds = box

def Change.trackSet (tracked : Finset Handle) : Change → Finset Handle
  | .update e _ _ => insert e tracked
  | .remove e => tracked.erase e
  | .clear => ∅

/-- The set of the tracked entities after a sequence of changes from nothing. -/
def trackedHandles (changes : List Change) : Finset Handle := changes.foldl Change.trackSet ∅

section History

variable {changes : List Change} {change : Change} {e : Handle} {box : Box}

/-- The last change decides if it concerns the entity, and else the changes before it. -/
theorem latestBox_concat : LatestBox (changes ++ [change]) e box ↔
    (∃ position bounds, change = .update e position bounds ∧ extent position bounds = box) ∨
      (¬ change.Concerns e ∧ LatestBox changes e box) := by
  constructor
  · rintro ⟨before, position, bounds, after, hsplit, hafter, hbox⟩
    rcases after.eq_nil_or_concat with rfl | ⟨after, last, rfl⟩
    · obtain ⟨-, hlast⟩ := List.append_inj' hsplit rfl
      exact Or.inl ⟨position, bounds, List.singleton_inj.mp hlast, hbox⟩
    · rw [List.concat_eq_append, ← List.cons_append, ← List.append_assoc] at hsplit
      obtain ⟨hchanges, hlast⟩ := List.append_inj' hsplit rfl
      obtain rfl := List.singleton_inj.mp hlast
      refine Or.inr ⟨hafter change (by simp), before, position, bounds, after, hchanges, ?_, hbox⟩
      intro other hother
      exact hafter other (by simp [hother])
  · rintro (⟨position, bounds, rfl, hbox⟩ |
      ⟨hother, before, position, bounds, after, rfl, hafter, hbox⟩)
    · exact ⟨changes, position, bounds, [], rfl, fun other hother => absurd hother (by simp), hbox⟩
    · refine ⟨before, position, bounds, after ++ [change], by simp, ?_, hbox⟩
      intro other hmem
      rcases List.mem_append.mp hmem with hmem | hmem
      · exact hafter other hmem
      · exact List.mem_singleton.mp hmem ▸ hother

/-- The box of the history is that of the last update. -/
theorem trackedBoxes_eq_some : trackedBoxes changes e = some box ↔ LatestBox changes e box := by
  induction changes using List.reverseRecOn with
  | nil => simp [trackedBoxes, LatestBox]
  | append_singleton changes change ih =>
      rw [trackedBoxes, List.foldl_append, List.foldl_cons, List.foldl_nil]
      change change.track (trackedBoxes changes) e = some box ↔ _
      rw [latestBox_concat, ← ih]
      cases change with
      | update other position bounds =>
          rw [Change.track]
          split_ifs with heq <;> simp [Change.Concerns, heq, eq_comm]
      | remove other =>
          rw [Change.track]
          split_ifs with heq <;> simp [Change.Concerns, heq, eq_comm]
      | clear => simp [Change.track, Change.Concerns]

theorem lastUpdated_iff : LastUpdated changes e ↔ ∃ box, LatestBox changes e box := by
  constructor
  · rintro ⟨before, position, bounds, after, hsplit, hafter⟩
    exact ⟨_, before, position, bounds, after, hsplit, hafter, rfl⟩
  · rintro ⟨box, before, position, bounds, after, hsplit, hafter, -⟩
    exact ⟨before, position, bounds, after, hsplit, hafter⟩

/-- The entities that have a box are those that were updated last. -/
theorem isSome_trackedBoxes : (trackedBoxes changes e).isSome = true ↔ LastUpdated changes e := by
  simp only [Option.isSome_iff_exists, trackedBoxes_eq_some, lastUpdated_iff]

theorem lastUpdated_concat : LastUpdated (changes ++ [change]) e ↔
    (∃ position bounds, change = .update e position bounds) ∨
      (¬ change.Concerns e ∧ LastUpdated changes e) := by
  simp only [lastUpdated_iff, latestBox_concat, exists_or, exists_and_left]
  refine or_congr ⟨?_, ?_⟩ Iff.rfl
  · rintro ⟨box, position, bounds, hupdate, -⟩
    exact ⟨position, bounds, hupdate⟩
  · rintro ⟨position, bounds, hupdate⟩
    exact ⟨extent position bounds, position, bounds, hupdate, rfl⟩

theorem lastUpdated_update {other : Handle} {position : Vec3} {bounds : Option Box} :
    LastUpdated (changes ++ [.update other position bounds]) e ↔
      e = other ∨ LastUpdated changes e := by
  rw [lastUpdated_concat]
  simp only [Change.update.injEq, Change.Concerns, exists_and_left, exists_eq', and_true]
  tauto

theorem lastUpdated_remove {other : Handle} :
    LastUpdated (changes ++ [.remove other]) e ↔ e ≠ other ∧ LastUpdated changes e := by
  rw [lastUpdated_concat]
  simp [Change.Concerns, eq_comm]

theorem not_lastUpdated_clear : ¬ LastUpdated (changes ++ [.clear]) e := by
  rw [lastUpdated_concat]
  simp [Change.Concerns]

theorem mem_trackedHandles : e ∈ trackedHandles changes ↔ LastUpdated changes e := by
  induction changes using List.reverseRecOn with
  | nil => simp [trackedHandles, LastUpdated]
  | append_singleton changes change ih =>
      rw [trackedHandles, List.foldl_append, List.foldl_cons, List.foldl_nil]
      change e ∈ change.trackSet (trackedHandles changes) ↔ _
      cases change with
      | update other position bounds =>
          rw [lastUpdated_update, ← ih]
          exact Finset.mem_insert
      | remove other =>
          rw [lastUpdated_remove, ← ih]
          exact Finset.mem_erase
      | clear => exact iff_of_false (Finset.notMem_empty e) not_lastUpdated_clear

end History

/-- A map that has a record of each entity of a set, and of no other, has the set's size. -/
theorem size_eq_card {α : Type} {records : Std.ExtTreeMap Handle α} {tracked : Finset Handle}
    (h : ∀ e, (records[e]?).isSome = true ↔ e ∈ tracked) : records.size = tracked.card := by
  have hkeys : records.keys.toFinset = tracked := by
    ext e
    rw [List.mem_toFinset, Std.ExtTreeMap.mem_keys, ← h, Std.ExtTreeMap.isSome_getElem?_iff_mem]
  rw [← hkeys, List.toFinset_card_of_nodup Std.ExtTreeMap.nodup_keys,
    Std.ExtTreeMap.length_keys]

/-- An index tracks what its history says. -/
structure TracksHistory {ι : Type} [SpatialIndex ι] (index : ι) (changes : List Change) : Prop where
  contains_iff : ∀ e, contains index e = true ↔ LastUpdated changes e
  count_eq : count index = (trackedHandles changes).card
  entities_eq : (stats index).entities = (trackedHandles changes).card
  /-- An entity that is not tracked can be taken out to no effect and without a report. -/
  remove_eq : ∀ e, ¬ LastUpdated changes e → apply index (.remove e) = (index, [])

namespace TracksHistory

/-- A map of what is tracked tells whether an entity is and how many are. -/
theorem records_spec {α : Type} (records : Std.ExtTreeMap Handle α) (changes : List Change)
    (h : ∀ e, (records[e]?).isSome = (trackedBoxes changes e).isSome) :
    (∀ e, records.contains e = true ↔ LastUpdated changes e) ∧
      records.size = (trackedHandles changes).card ∧
      ∀ e, ¬ LastUpdated changes e → records[e]? = none := by
  refine ⟨?_, ?_, ?_⟩
  · intro e
    rw [Std.ExtTreeMap.contains_eq_isSome_getElem?, h, isSome_trackedBoxes]
  · apply size_eq_card
    intro e
    rw [h, isSome_trackedBoxes, mem_trackedHandles]
  · intro e huntracked
    rw [← isSome_trackedBoxes, ← h, Bool.not_eq_true, Option.isSome_eq_false_iff,
      Option.isNone_iff_eq_none] at huntracked
    exact huntracked

theorem grid {config : GridConfig} {g₀ : Grid} (hcreate : (Grid.create config).1 = .ok g₀)
    (changes : List Change) : TracksHistory (run g₀ changes) changes := by
  obtain ⟨-, -, hranges⟩ := Grid.filed_of_create hcreate changes
  obtain ⟨hcontains, hsize, hnone⟩ := records_spec (run g₀ changes).ranges changes
    fun e => by rw [hranges, Option.isSome_map]
  refine ⟨hcontains, hsize, hsize, ?_⟩
  intro e huntracked
  have hsame : (run g₀ changes).remove e = run g₀ changes := by
    rw [Grid.remove, hnone e huntracked]
  exact Prod.ext hsame rfl

theorem tree {layout : Layout} {config : TreeConfig} {t₀ : Tree layout}
    (hcreate : (Tree.create layout config).1 = .ok t₀) (changes : List Change) :
    TracksHistory (run t₀ changes) changes := by
  obtain ⟨hwell, -, hbox⟩ := Tree.wellFormed_of_create hcreate changes
  obtain ⟨hcontains, hsize, hnone⟩ := records_spec (run t₀ changes).locations changes
    fun e => by rw [← hbox, Tree.boxOf, Option.isSome_map]
  obtain ⟨n, hallows⟩ := Tree.Allows.root hwell.arena
  obtain ⟨deepest, hdeepest, -⟩ := Tree.exists_deepestBelow hwell.arena hallows
  refine ⟨hcontains, hsize, ?_, ?_⟩
  · change ((run t₀ changes).tryStats.toOption.getD default).entities = _
    rw [Tree.tryStats, hdeepest]
    exact hsize
  · intro e huntracked
    have hsame : (run t₀ changes).step (.remove e) = .ok (run t₀ changes, []) := by
      rw [Tree.step, Tree.remove, hnone e huntracked]
    exact Tree.apply_eq_of_step hsame

theorem scan (deterministic : Bool) (changes : List Change) :
    TracksHistory (run (LinearScan.empty deterministic) changes) changes := by
  obtain ⟨hindexed, -, hbox⟩ :=
    LinearScan.indexed_run (LinearScan.indexed_empty deterministic) changes
  generalize run (LinearScan.empty deterministic) changes = s at hindexed hbox ⊢
  have hslots (e : Handle) : (s.slots[e]?).isSome = (trackedBoxes changes e).isSome := by
    rw [← hindexed.isSome_boxOf, hbox]
    rfl
  obtain ⟨hcontains, hsize, hnone⟩ := records_spec s.slots changes hslots
  have hentries : s.entries.size = (trackedHandles changes).card := by
    have hset : s.handles.toFinset = trackedHandles changes := by
      ext e
      rw [List.mem_toFinset, LinearScan.mem_handles hindexed, hslots, isSome_trackedBoxes,
        mem_trackedHandles]
    rw [← hset, List.toFinset_card_of_nodup (LinearScan.nodup_handles hindexed),
      LinearScan.handles, List.length_map, Array.length_toList]
  refine ⟨hcontains, hentries, hentries, ?_⟩
  intro e huntracked
  have hsame : s.remove e = s := by
    rw [LinearScan.remove, hnone e huntracked]
  exact Prod.ext hsame rfl

/-- An index inside of another one tracks for it. -/
theorem map {ι κ : Type} [SpatialIndex ι] [SpatialIndex κ] {f : ι → κ} {index : ι}
    {changes : List Change} (h : TracksHistory index changes)
    (happly : ∀ change,
      apply (f index) change = (f (apply index change).1, (apply index change).2))
    (hcontains : ∀ e, contains (f index) e = contains index e)
    (hcount : count (f index) = count index) (hstats : stats (f index) = stats index) :
    TracksHistory (f index) changes := by
  refine ⟨?_, hcount.trans h.count_eq, ?_, ?_⟩
  · intro e
    rw [hcontains, h.contains_iff]
  · rw [hstats, h.entities_eq]
  · intro e huntracked
    rw [happly, h.remove_eq e huntracked]

end TracksHistory

namespace AnyIndex

theorem tracksHistory_run {index₀ : AnyIndex} (hcreated : index₀.Created)
    (changes : List Change) : TracksHistory (run index₀ changes) changes := by
  cases hcreated with
  | grid hcreate =>
      rw [run_grid]
      exact (TracksHistory.grid hcreate changes).map (fun _ => rfl) (fun _ => rfl) rfl rfl
  | quadtree hcreate =>
      rw [run_quadtree]
      exact (TracksHistory.tree hcreate changes).map (fun _ => rfl) (fun _ => rfl) rfl rfl
  | octree hcreate =>
      rw [run_octree]
      exact (TracksHistory.tree hcreate changes).map (fun _ => rfl) (fun _ => rfl) rfl rfl
  | scan deterministic =>
      rw [run_scan]
      exact (TracksHistory.scan deterministic changes).map (fun _ => rfl) (fun _ => rfl) rfl rfl

/-- After any changes to a new index of any kind, it contains exactly the entities whose last
change is an update, counts each of them once, and an entity that it does not contain can be
taken out to no effect. -/
theorem tracks_history_of_run {index₀ : AnyIndex} (hcreated : index₀.Created)
    (changes : List Change) :
    TracksHistory (run index₀ changes) changes ∧
      ∀ e, e ∈ trackedHandles changes ↔ LastUpdated changes e :=
  ⟨tracksHistory_run hcreated changes, fun _ => mem_trackedHandles⟩

/-- Of three entities of one identifier, of which one is taken out again and one is updated
twice, a quadtree counts two. -/
theorem tracks_history_of_run_generations :
    let index := run (AnyIndex.quadtree (Tree.empty { maxOccupants := 1 }))
      [.update ⟨1, 0⟩ .zero none, .clear, .update ⟨1, 1⟩ (.splat 10) none,
        .update ⟨1, 2⟩ (.splat 20) none, .update ⟨1, 3⟩ (.splat (-20)) none, .remove ⟨1, 2⟩,
        .update ⟨1, 1⟩ (.splat 30) none]
    count index = 2 ∧ contains index ⟨1, 1⟩ = true ∧
      apply index (.remove ⟨1, 2⟩) = (index, []) := by
  intro index
  have hcreated : (AnyIndex.quadtree (Tree.empty { maxOccupants := 1 })).Created :=
    .quadtree (Tree.create_eq_ok (by decide +kernel))
  obtain ⟨h, hmem⟩ := tracks_history_of_run hcreated
    [.update ⟨1, 0⟩ .zero none, .clear, .update ⟨1, 1⟩ (.splat 10) none,
      .update ⟨1, 2⟩ (.splat 20) none, .update ⟨1, 3⟩ (.splat (-20)) none, .remove ⟨1, 2⟩,
      .update ⟨1, 1⟩ (.splat 30) none]
  refine ⟨h.count_eq.trans (by decide), (h.contains_iff _).mpr ((hmem _).mp (by decide)), ?_⟩
  exact h.remove_eq _ fun hlast => absurd ((hmem _).mpr hlast) (by decide)

end AnyIndex

end Broadphase
