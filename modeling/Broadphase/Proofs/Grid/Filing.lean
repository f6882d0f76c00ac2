import Mathlib
import Broadphase.Grid.Index
import Broadphase.Proofs.Grid.Range
import Broadphase.Proofs.History
import Broadphase.Proofs.SwapErase

/-!
Where a grid files its entities. In every state that changes lead to, an entity is in
a cell exactly if the cell belongs to the block recorded for the entity, and then once.
The block is that of the entity's tracked box. Cells that exist hold an entity, and
storage kept for reuse is empty.
-/

namespace Broadphase

namespace Grid

variable {g g' : Grid} {e : Handle}

theorem cellEntities_of_some {k : CellKey} {occupants : Array Handle}
    (h : g.cells[k]? = some occupants) : g.cellEntities k = occupants := by
  rw [cellEntities, h, Option.getD_some]

theorem cellEntities_of_none {k : CellKey} (h : g.cells[k]? = none) : g.cellEntities k = #[] := by
  rw [cellEntities, h, Option.getD_none]

theorem mem_cellEntities {k : CellKey} :
    e ∈ g.cellEntities k ↔ ∃ occupants, g.cells[k]? = some occupants ∧ e ∈ occupants := by
  cases hget : g.cells[k]? with
  | none => simp [cellEntities_of_none hget]
  | some occupants => simp [cellEntities_of_some hget]

/-- No cell exists without an entity, and spare storage is empty and there only if it
may be kept. -/
structure Tidy (g : Grid) : Prop where
  occupied : ∀ k : CellKey, g.cells[k]? ≠ some #[]
  spare_eq : ∀ storage ∈ g.spare, storage = #[]
  pooled : g.config.pooling = false → g.spare = []

/-- A change of the cells alone, told for each cell. -/
structure Edits (g : Grid) (edit : CellKey → Array Handle → Array Handle) (g' : Grid) : Prop where
  tidy : g'.Tidy
  config_eq : g'.config = g.config
  ranges_eq : g'.ranges = g.ranges
  cell_eq : ∀ k, g'.cellEntities k = edit k (g.cellEntities k)

/-- The same edit of some cells. -/
def editAt (keys : List CellKey) (edit : Array Handle → Array Handle) (k : CellKey)
    (occupants : Array Handle) : Array Handle :=
  if k ∈ keys then edit occupants else occupants

theorem editAt_singleton (k other : CellKey) (edit : Array Handle → Array Handle)
    (occupants : Array Handle) :
    editAt [k] edit other occupants = if other = k then edit occupants else occupants := by
  simp only [editAt, List.mem_singleton]

theorem edits_addToCell (h : g.Tidy) (e : Handle) (k : CellKey) :
    g.Edits (editAt [k] (·.push e)) (addToCell e g k) := by
  -- a cell that exists keeps its storage, and another one takes what is empty
  have hedits (storage : Array Handle) (spare : List (Array Handle))
      (hstorage : g.cellEntities k = storage) (hspare : spare ⊆ g.spare) :
      g.Edits (editAt [k] (·.push e))
        { g with cells := g.cells.insert k (storage.push e), spare } := by
    refine ⟨⟨fun other => ?_, fun storage' hmem => h.spare_eq storage' (hspare hmem),
      fun hoff => List.subset_nil.mp (h.pooled hoff ▸ hspare)⟩, rfl, rfl, fun other => ?_⟩
    · rw [record_insert]
      split_ifs
      · exact fun heq => Array.push_ne_empty (Option.some.inj heq)
      · exact h.occupied other
    · rw [cellEntities, record_insert, editAt_singleton]
      split_ifs with heq
      · rw [heq, hstorage, Option.getD_some]
      · rfl
  cases hget : g.cells[k]? with
  | some occupants =>
      have heq : addToCell e g k = { g with cells := g.cells.insert k (occupants.push e) } := by
        simp only [addToCell, hget]
      rw [heq]
      exact hedits occupants g.spare (cellEntities_of_some hget) (List.Subset.refl _)
  | none =>
      have hempty := cellEntities_of_none hget
      cases hspare : g.spare with
      | nil =>
          have heq : addToCell e g k = { g with cells := g.cells.insert k (#[].push e) } := by
            simp only [addToCell, hget, hspare]
            rfl
          rw [heq]
          exact hedits #[] g.spare hempty (List.Subset.refl _)
      | cons storage spare =>
          obtain rfl : storage = #[] := h.spare_eq storage (hspare ▸ List.mem_cons_self)
          have heq : addToCell e g k =
              { g with cells := g.cells.insert k (#[].push e), spare } := by
            simp only [addToCell, hget, hspare]
          rw [heq]
          exact hedits #[] spare hempty (hspare ▸ List.subset_cons_self _ _)

theorem edits_removeFromCell (h : g.Tidy) (e : Handle) (k : CellKey) :
    g.Edits (editAt [k] (swapErase · e)) (removeFromCell e g k) := by
  unfold removeFromCell
  cases hget : g.cells[k]? with
  | none =>
      refine ⟨h, rfl, rfl, fun other => ?_⟩
      change g.cellEntities other = _
      rw [editAt_singleton]
      split_ifs with heq
      · rw [heq, cellEntities_of_none hget, swapErase_of_not_mem (Array.not_mem_empty e)]
      · rfl
  | some occupants =>
      have hcell := cellEntities_of_some hget
      by_cases hempty : (swapErase occupants e).isEmpty = true
      · have hnone := Array.isEmpty_iff.mp hempty
        simp only [hnone, Array.isEmpty_empty, if_true]
        refine ⟨⟨fun other => ?_, fun storage hmem => ?_, fun hoff => ?_⟩, rfl, rfl,
          fun other => ?_⟩
        · rw [record_erase]
          split_ifs
          · exact (Option.some_ne_none _).symm
          · exact h.occupied other
        · by_cases hpooling : g.config.pooling = true
          · rw [if_pos hpooling] at hmem
            rcases List.mem_cons.mp hmem with rfl | hmem
            · rfl
            · exact h.spare_eq storage hmem
          · rw [if_neg hpooling] at hmem
            exact h.spare_eq storage hmem
        · have hoff' : ¬ g.config.pooling = true := Bool.not_eq_true _ |>.mpr hoff
          rw [if_neg hoff']
          exact h.pooled hoff
        · rw [cellEntities, record_erase, editAt_singleton]
          split_ifs with heq
          · rw [heq, hcell, hnone, Option.getD_none]
          · rfl
      · simp only [hempty, if_false, Bool.false_eq_true]
        refine ⟨⟨fun other => ?_, h.spare_eq, h.pooled⟩, rfl, rfl, fun other => ?_⟩
        · rw [record_insert]
          split_ifs
          · exact fun heq => hempty (Array.isEmpty_iff.mpr (Option.some.inj heq))
          · exact h.occupied other
        · rw [cellEntities, record_insert, editAt_singleton]
          split_ifs with heq
          · rw [heq, hcell, Option.getD_some]
          · rfl

/-- Cells edited one after the other. -/
theorem edits_foldl {op : Grid → CellKey → Grid} {edit : Array Handle → Array Handle}
    (hop : ∀ {g : Grid}, g.Tidy → ∀ k, g.Edits (editAt [k] edit) (op g k)) {keys : List CellKey}
    (hnodup : keys.Nodup) (h : g.Tidy) : g.Edits (editAt keys edit) (keys.foldl op g) := by
  induction keys generalizing g with
  | nil => exact ⟨h, rfl, rfl, fun _ => rfl⟩
  | cons k keys ih =>
      obtain ⟨hfresh, hnodup⟩ := List.nodup_cons.mp hnodup
      have hfirst := hop h k
      have hrest := ih hnodup hfirst.tidy
      refine ⟨hrest.tidy, hrest.config_eq.trans hfirst.config_eq,
        hrest.ranges_eq.trans hfirst.ranges_eq, fun other => ?_⟩
      rw [List.foldl_cons, hrest.cell_eq, hfirst.cell_eq, editAt_singleton]
      by_cases heq : other = k
      · subst heq
        rw [if_pos rfl, editAt, editAt, if_neg hfresh, if_pos List.mem_cons_self]
      · simp only [editAt, List.mem_cons, heq, if_false, false_or]

/-- The invariant of a grid. -/
structure Filed (g : Grid) : Prop where
  tidy : g.Tidy
  mem_iff : ∀ (e : Handle) k,
    e ∈ g.cellEntities k ↔ ∃ range, g.ranges[e]? = some range ∧ range.contains k = true
  nodup : ∀ k, (g.cellEntities k).toList.Nodup

/-- What a change of one entity does: its block is the new one, and the cells follow. -/
structure Files (g : Grid) (e : Handle) (new : Option CellRange) (g' : Grid) : Prop where
  tidy : g'.Tidy
  config_eq : g'.config = g.config
  range_eq : ∀ other, g'.ranges[other]? = if other = e then new else g.ranges[other]?
  mem_iff : ∀ k other, other ∈ g'.cellEntities k ↔
    if other = e then ∃ range, new = some range ∧ range.contains k = true
    else other ∈ g.cellEntities k
  nodup : ∀ k, (g'.cellEntities k).toList.Nodup

theorem Files.filed {new : Option CellRange} (hfiles : g.Files e new g') (h : g.Filed) :
    g'.Filed := by
  refine ⟨hfiles.tidy, fun other k => ?_, hfiles.nodup⟩
  rw [hfiles.mem_iff, hfiles.range_eq]
  split_ifs
  · rfl
  · exact h.mem_iff other k

theorem not_mem_of_untracked (h : g.Filed) (hnone : g.ranges[e]? = none) (k : CellKey) :
    e ∉ g.cellEntities k := by
  rw [h.mem_iff]
  rintro ⟨range, hrange, -⟩
  cases hnone.symm.trans hrange

theorem mem_iff_of_range (h : g.Filed) {range : CellRange} (hrange : g.ranges[e]? = some range)
    (k : CellKey) : e ∈ g.cellEntities k ↔ range.contains k = true := by
  rw [h.mem_iff]
  constructor
  · rintro ⟨range', hrange', hk⟩
    obtain rfl := Option.some.inj (hrange.symm.trans hrange')
    exact hk
  · intro hk
    exact ⟨range, hrange, hk⟩

theorem Tidy.withRanges (h : g.Tidy) (ranges : Std.ExtTreeMap Handle CellRange) :
    Tidy { g with ranges } :=
  ⟨h.occupied, h.spare_eq, h.pooled⟩

/-- The list of a cell that an entity may leave or enter, but does not enter twice. -/
theorem occupants_of_move {occupants : Array Handle} (hnodup : occupants.toList.Nodup)
    {leave enter : List CellKey} {k : CellKey} (hfresh : k ∈ enter → e ∉ occupants) :
    (editAt enter (·.push e) k (editAt leave (swapErase · e) k occupants)).toList.Nodup ∧
      ∀ other, other ∈ editAt enter (·.push e) k (editAt leave (swapErase · e) k occupants) ↔
        if other = e then k ∈ enter ∨ (e ∈ occupants ∧ k ∉ leave) else other ∈ occupants := by
  obtain ⟨hrest, hmem⟩ : (editAt leave (swapErase · e) k occupants).toList.Nodup ∧
      ∀ other, other ∈ editAt leave (swapErase · e) k occupants ↔
        other ∈ occupants ∧ (k ∈ leave → other ≠ e) := by
    unfold editAt
    split_ifs with hleave
    · simpa [hleave] using swapErase_spec hnodup
    · simpa [hleave] using hnodup
  have hnew (henter : k ∈ enter) : e ∉ editAt leave (swapErase · e) k occupants := fun he =>
    hfresh henter ((hmem e).mp he).1
  rw [editAt]
  split_ifs with henter
  · refine ⟨?_, fun other => ?_⟩
    · rw [Array.toList_push, List.nodup_append]
      refine ⟨hrest, List.nodup_singleton e, fun other hother last hlast => ?_⟩
      rw [List.mem_singleton.mp hlast]
      rintro rfl
      exact hnew henter (Array.mem_toList_iff.mp hother)
    · rw [Array.mem_push, hmem]
      split_ifs with heq
      · simp [heq, henter]
      · simp [heq]
  · refine ⟨hrest, fun other => ?_⟩
    rw [hmem]
    split_ifs with heq
    · simp [heq, henter]
    · simp [heq]

/-- An entity moves by leaving some cells and entering others. -/
private theorem files_of_edits (h : g.Filed) {leave enter : List CellKey} {g₁ g₂ : Grid}
    {before after : Std.ExtTreeMap Handle CellRange} {new : Option CellRange}
    (hleave : ({ g with ranges := before } : Grid).Edits (editAt leave (swapErase · e)) g₁)
    (henter : g₁.Edits (editAt enter (·.push e)) g₂)
    (hfresh : ∀ k ∈ enter, e ∉ g.cellEntities k)
    (hnew : ∀ k, (k ∈ enter ∨ (e ∈ g.cellEntities k ∧ k ∉ leave)) ↔
      ∃ range, new = some range ∧ range.contains k = true)
    (hafter : ∀ other : Handle, after[other]? = if other = e then new else g.ranges[other]?) :
    g.Files e new { g₂ with ranges := after } := by
  have hcell (k : CellKey) : g₂.cellEntities k =
      editAt enter (·.push e) k (editAt leave (swapErase · e) k (g.cellEntities k)) := by
    rw [henter.cell_eq, hleave.cell_eq]
    rfl
  refine ⟨henter.tidy.withRanges after, henter.config_eq.trans hleave.config_eq, hafter, ?_, ?_⟩
  · intro k other
    change other ∈ g₂.cellEntities k ↔ _
    rw [hcell, (occupants_of_move (h.nodup k) (hfresh k)).2]
    split_ifs
    · exact hnew k
    · rfl
  · intro k
    change (g₂.cellEntities k).toList.Nodup
    rw [hcell]
    exact (occupants_of_move (h.nodup k) (hfresh k)).1

private theorem edits_nothing (h : g.Tidy) (edit : Array Handle → Array Handle) :
    g.Edits (editAt [] edit) g :=
  ⟨h, rfl, rfl, fun _ => rfl⟩

theorem files_update (h : g.Filed) (e : Handle) (b : Box) :
    g.Files e (some (g.cellRange b)) (g.update e b).1 := by
  unfold update
  generalize g.cellRange b = new
  cases hold : g.ranges[e]? with
  | none =>
      refine files_of_edits h (edits_nothing h.tidy _)
        (edits_foldl (fun ht => edits_addToCell ht e) new.nodup_toList h.tidy)
        (fun k _ => not_mem_of_untracked h hold k) ?_ ?_
      · intro k
        simp [CellRange.mem_toList, not_mem_of_untracked h hold k]
      · intro other
        rw [record_insert, (edits_foldl (fun ht => edits_addToCell ht e) new.nodup_toList
          h.tidy).ranges_eq]
  | some old =>
      have hmem := mem_iff_of_range h hold
      dsimp only
      split_ifs with hsame
      · subst hsame
        refine ⟨h.tidy, rfl, fun other => ?_, fun k other => ?_, h.nodup⟩
        · split_ifs with heq
          · rw [heq, hold]
          · rfl
        · split_ifs with heq
          · rw [heq, hmem]
            simp
          · rfl
      · have hleave := edits_foldl (fun ht => edits_removeFromCell ht e)
          (old.nodup_toList.filter (!new.contains ·)) h.tidy
        have henter := edits_foldl (fun ht => edits_addToCell ht e)
          (new.nodup_toList.filter (!old.contains ·)) hleave.tidy
        refine files_of_edits h hleave henter ?_ ?_ ?_
        · intro k hk
          rw [List.mem_filter] at hk
          rw [hmem]
          simpa using hk.2
        · intro k
          simp only [List.mem_filter, CellRange.mem_toList, hmem, Option.some.injEq,
            exists_eq_left']
          cases hin : old.contains k <;> simp
        · intro other
          rw [record_insert, henter.ranges_eq, hleave.ranges_eq]

theorem files_remove (h : g.Filed) (e : Handle) : g.Files e none (g.remove e) := by
  unfold remove
  cases hold : g.ranges[e]? with
  | none =>
      refine ⟨h.tidy, rfl, fun other => ?_, fun k other => ?_, h.nodup⟩
      · split_ifs with heq
        · rw [heq, hold]
        · rfl
      · split_ifs with heq
        · rw [heq]
          simp [not_mem_of_untracked h hold k]
        · rfl
  | some old =>
      have hmem := mem_iff_of_range h hold
      have hleave := edits_foldl (fun ht => edits_removeFromCell ht e) old.nodup_toList
        (h.tidy.withRanges (g.ranges.erase e))
      dsimp only
      generalize old.toList.foldl (removeFromCell e)
        ({ g with ranges := g.ranges.erase e } : Grid) = left at hleave ⊢
      have hranges : left.ranges = g.ranges.erase e := hleave.ranges_eq
      have hfiles : g.Files e none { left with ranges := left.ranges } := by
        refine files_of_edits h hleave (edits_nothing hleave.tidy (·.push e))
          (fun k hk => absurd hk List.not_mem_nil) (fun k => ?_) fun other => ?_
        · simp [hmem, CellRange.mem_toList]
        · rw [hranges]
          exact record_erase g.ranges e other
      exact hfiles

theorem filed_of_nothing (hcells : ∀ k : CellKey, g.cells[k]? = none)
    (hranges : ∀ e : Handle, g.ranges[e]? = none) (hspare : ∀ storage ∈ g.spare, storage = #[])
    (hpooled : g.config.pooling = false → g.spare = []) : g.Filed := by
  have hempty (k : CellKey) : g.cellEntities k = #[] := cellEntities_of_none (hcells k)
  refine ⟨⟨fun k => ?_, hspare, hpooled⟩, fun e k => ?_, fun k => ?_⟩
  · rw [hcells]
    exact (Option.some_ne_none _).symm
  · rw [hempty, hranges]
    simp
  · rw [hempty]
    exact List.nodup_nil

theorem filed_clear (h : g.Filed) : g.clear.Filed := by
  refine filed_of_nothing (fun _ => Std.ExtTreeMap.getElem?_empty)
    (fun _ => Std.ExtTreeMap.getElem?_empty) (fun storage hmem => ?_) fun hoff => ?_
  · change storage ∈ if g.config.pooling then _ else [] at hmem
    split_ifs at hmem
    · rcases List.mem_append.mp hmem with hmem | hmem
      · obtain ⟨occupants, -, rfl⟩ := List.mem_map.mp hmem
        simp
      · exact h.tidy.spare_eq storage hmem
    · cases hmem
  · have hoff' : ¬ g.config.pooling = true := Bool.not_eq_true _ |>.mpr hoff
    exact if_neg hoff'

theorem filed_empty (config : GridConfig) : (empty config).Filed :=
  filed_of_nothing (fun _ => Std.ExtTreeMap.getElem?_empty)
    (fun _ => Std.ExtTreeMap.getElem?_empty) (fun _ hmem => absurd hmem List.not_mem_nil)
    fun _ => rfl

theorem cellRange_congr (hsize : g'.config.cellSize = g.config.cellSize) (b : Box) :
    g'.cellRange b = g.cellRange b := by
  simp only [cellRange, cellKey, hsize]

/-- What one change does to a filed grid. -/
theorem filed_step (h : g.Filed) (change : Change) :
    (SpatialIndex.apply g change).1.Filed ∧
      (SpatialIndex.apply g change).1.config = g.config ∧
      ∀ boxes : Handle → Option Box, (∀ e, g.ranges[e]? = (boxes e).map g.cellRange) →
        ∀ e, (SpatialIndex.apply g change).1.ranges[e]? =
          (change.track boxes e).map g.cellRange := by
  cases change with
  | update e position bounds =>
      have hfiles := files_update h e (extent position bounds)
      refine ⟨hfiles.filed h, hfiles.config_eq, fun boxes hboxes other => ?_⟩
      refine (hfiles.range_eq other).trans ?_
      rw [Change.track, hboxes]
      split_ifs <;> rfl
  | remove e =>
      have hfiles := files_remove h e
      refine ⟨hfiles.filed h, hfiles.config_eq, fun boxes hboxes other => ?_⟩
      refine (hfiles.range_eq other).trans ?_
      rw [Change.track, hboxes]
      split_ifs <;> rfl
  | clear => exact ⟨filed_clear h, rfl, fun _ _ _ => Std.ExtTreeMap.getElem?_empty⟩

/-- What holds after any changes to a filed grid. -/
theorem filed_run (h : g.Filed) (changes : List Change) {boxes : Handle → Option Box}
    (hboxes : ∀ e, g.ranges[e]? = (boxes e).map g.cellRange) :
    (SpatialIndex.run g changes).Filed ∧ (SpatialIndex.run g changes).config = g.config ∧
      ∀ e, (SpatialIndex.run g changes).ranges[e]? =
        (changes.foldl Change.track boxes e).map g.cellRange := by
  induction changes generalizing g boxes with
  | nil => exact ⟨h, rfl, hboxes⟩
  | cons change changes ih =>
      obtain ⟨hfiled, hconfig, htrack⟩ := filed_step h change
      have hcongr := funext (cellRange_congr (congrArg GridConfig.cellSize hconfig))
      have htracked := htrack boxes hboxes
      rw [← hcongr] at htracked
      obtain ⟨hresult, hconfig', hranges⟩ := ih hfiled htracked
      rw [SpatialIndex.run_cons, List.foldl_cons, ← hcongr]
      exact ⟨hresult, hconfig'.trans hconfig, hranges⟩

theorem eq_empty_of_create {config : GridConfig} (h : (create config).1 = .ok g) :
    g = empty config ∧ config.validate = .ok () := by
  unfold create at h
  split at h
  · rename_i hvalid
    cases h
    exact ⟨rfl, hvalid⟩
  · cases h

theorem create_eq_ok {config : GridConfig} (h : config.validate.isOk = true) :
    (create config).1 = .ok (empty config) := by
  unfold create
  cases hvalid : config.validate with
  | ok u => rfl
  | error e => simp [hvalid, Except.isOk, Except.toBool] at h

/-- After any changes to a new grid, its invariant holds and the block of each tracked
entity is that of its box. -/
theorem filed_of_create {config : GridConfig} (h : (create config).1 = .ok g)
    (changes : List Change) :
    (SpatialIndex.run g changes).Filed ∧ (SpatialIndex.run g changes).config = config ∧
      ∀ e, (SpatialIndex.run g changes).ranges[e]? =
        (trackedBoxes changes e).map (SpatialIndex.run g changes).cellRange := by
  obtain ⟨rfl, -⟩ := eq_empty_of_create h
  have hnone (e : Handle) : (empty config).ranges[e]? =
      ((fun _ => none : Handle → Option Box) e).map (empty config).cellRange :=
    Std.ExtTreeMap.getElem?_empty
  obtain ⟨hfiled, hconfig, hranges⟩ := filed_run (filed_empty config) changes hnone
  refine ⟨hfiled, hconfig, fun e => ?_⟩
  rw [funext (cellRange_congr (congrArg GridConfig.cellSize hconfig))]
  exact hranges e

/-- After any changes to a new grid, with boxes of any kind, the block recorded for an
entity is that of its latest box. The occupied cells have, once each, exactly the
entities whose block they belong to, and none of them is without an entity. What is kept
for reuse is empty, and nothing is kept unless the grid does that. -/
theorem membership_of_run {config : GridConfig} {g₀ : Grid}
    (hcreate : (create config).1 = .ok g₀) (changes : List Change) :
    let g := SpatialIndex.run g₀ changes
    (∀ e, g.ranges[e]? = (trackedBoxes changes e).map g.cellRange) ∧
    (∀ (k : CellKey) e, (∃ occupants, g.cells[k]? = some occupants ∧ e ∈ occupants) ↔
      ∃ range, g.ranges[e]? = some range ∧ range.contains k = true) ∧
    (∀ (k : CellKey) occupants, g.cells[k]? = some occupants →
      occupants ≠ #[] ∧ ∀ e ∈ occupants, occupants.count e = 1) ∧
    (∀ storage ∈ g.spare, storage = #[]) ∧ (config.pooling = false → g.spare = []) := by
  intro g
  obtain ⟨hfiled, hconfig, hranges⟩ := filed_of_create hcreate changes
  refine ⟨hranges, ?_, ?_, hfiled.tidy.spare_eq, ?_⟩
  · intro k e
    rw [← mem_cellEntities]
    exact hfiled.mem_iff e k
  · intro k occupants hcell
    have hnodup := hfiled.nodup k
    rw [cellEntities_of_some hcell] at hnodup
    constructor
    · rintro rfl
      exact hfiled.tidy.occupied k hcell
    · intro e he
      rw [← Array.count_toList]
      exact List.count_eq_one_of_mem hnodup (Array.mem_toList_iff.mpr he)
  · intro hoff
    exact hfiled.tidy.pooled (hconfig ▸ hoff)

/-- An entity that shrinks from eight cells to one leaves the others, of which one stays
for another entity, and nothing is kept of the emptied cells. -/
theorem membership_of_run_shrunk :
    let g := SpatialIndex.run (empty { pooling := false })
      [.update ⟨1, 0⟩ .zero (some ⟨.zero, .splat 100⟩), .update ⟨2, 0⟩ (.splat 90) none,
        .update ⟨1, 0⟩ (.splat 10) none]
    (∃ occupants, g.cells[(⟨0, 0, 0⟩ : CellKey)]? = some occupants ∧ occupants.count ⟨1, 0⟩ = 1) ∧
      ¬ (∃ occupants, g.cells[(⟨1, 1, 1⟩ : CellKey)]? = some occupants ∧ ⟨1, 0⟩ ∈ occupants) ∧
      g.spare = [] := by
  intro g
  have hcreate : (create { pooling := false }).1 = .ok (empty { pooling := false }) :=
    create_eq_ok (by decide +kernel)
  obtain ⟨hranges, hmem, hcells, -, hspare⟩ := membership_of_run hcreate
    [.update ⟨1, 0⟩ .zero (some ⟨.zero, .splat 100⟩), .update ⟨2, 0⟩ (.splat 90) none,
        .update ⟨1, 0⟩ (.splat 10) none]
  have hrange : g.ranges[(⟨1, 0⟩ : Handle)]? = some ⟨⟨0, 0, 0⟩, ⟨0, 0, 0⟩⟩ :=
    (hranges _).trans (by decide +kernel)
  obtain ⟨occupants, hcell, he⟩ := (hmem ⟨0, 0, 0⟩ ⟨1, 0⟩).mpr ⟨_, hrange, by decide⟩
  refine ⟨⟨occupants, hcell, (hcells _ _ hcell).2 _ he⟩, ?_, hspare rfl⟩
  rw [hmem]
  rintro ⟨range, hrange', hcontains⟩
  obtain rfl := Option.some.inj (hrange.symm.trans hrange')
  cases hcontains

end Grid

end Broadphase
