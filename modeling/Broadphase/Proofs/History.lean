import Mathlib
import Std.Data.ExtTreeMap
import Broadphase.Index
import Broadphase.Proofs.Box

/-!
What is tracked after a sequence of changes, told without any index: the box of an
entity is that of its last update, unless it was removed or everything was cleared
since. Every index is measured against this.
-/

namespace Broadphase

section Records

variable {κ α : Type} [Ord κ] [Std.TransOrd κ] [Std.LawfulEqOrd κ] [DecidableEq κ]
  (records : Std.ExtTreeMap κ α)

theorem record_insert (k other : κ) (value : α) :
    (records.insert k value)[other]? = if other = k then some value else records[other]? := by
  simp only [Std.ExtTreeMap.getElem?_insert, Std.LawfulEqOrd.compare_eq_iff_eq, eq_comm (a := k)]

theorem record_erase (k other : κ) :
    (records.erase k)[other]? = if other = k then none else records[other]? := by
  simp only [Std.ExtTreeMap.getElem?_erase, Std.LawfulEqOrd.compare_eq_iff_eq, eq_comm (a := k)]

/-- A record written again where it is changes nothing. -/
theorem insert_record_self {k : κ} {value : α} (h : records[k]? = some value) :
    records.insert k value = records := by
  apply Std.ExtTreeMap.ext_getElem?
  intro other
  rw [record_insert]
  split_ifs with heq
  · rw [heq, h]
  · rfl

end Records

def Change.track (boxes : Handle → Option Box) (change : Change) (other : Handle) : Option Box :=
  match change with
  | .update e position bounds => if other = e then some (extent position bounds) else boxes other
  | .remove e => if other = e then none else boxes other
  | .clear => none

/-- The box of each tracked entity after a sequence of changes from nothing. -/
def trackedBoxes (changes : List Change) : Handle → Option Box :=
  changes.foldl Change.track fun _ => none

theorem exists_update_of_tracked {changes : List Change} {e : Handle} {box : Box}
    (h : trackedBoxes changes e = some box) :
    ∃ position bounds, .update e position bounds ∈ changes ∧ extent position bounds = box := by
  induction changes using List.reverseRecOn with
  | nil => cases h
  | append_singleton changes change ih =>
      have hmore (hold : trackedBoxes changes e = some box) : ∃ position bounds,
          .update e position bounds ∈ changes ++ [change] ∧ extent position bounds = box := by
        obtain ⟨position, bounds, hmem, hbox⟩ := ih hold
        exact ⟨position, bounds, List.mem_append_left _ hmem, hbox⟩
      unfold trackedBoxes at h
      rw [List.foldl_append, List.foldl_cons, List.foldl_nil] at h
      cases change with
      | update other position bounds =>
          simp only [Change.track] at h
          split_ifs at h with heq
          · exact ⟨position, bounds, by simp [heq], Option.some.inj h⟩
          · exact hmore h
      | remove other =>
          simp only [Change.track] at h
          split_ifs at h
          exact hmore h
      | clear => cases h

/-- The box that a change gives an entity. -/
def Change.box? : Change → Option Box
  | .update _ position bounds => some (extent position bounds)
  | .remove _ => none
  | .clear => none

theorem mem_boxes {changes : List Change} {box : Box} :
    box ∈ changes.filterMap Change.box? ↔ ∃ e position bounds,
      Change.update e position bounds ∈ changes ∧ extent position bounds = box := by
  rw [List.mem_filterMap]
  constructor
  · rintro ⟨change, hmem, hbox⟩
    cases change with
    | update e position bounds => exact ⟨e, position, bounds, hmem, Option.some.inj hbox⟩
    | remove e => cases hbox
    | clear => cases hbox
  · rintro ⟨e, position, bounds, hmem, rfl⟩
    exact ⟨_, hmem, rfl⟩

/-- The boxes of all updates have their lower corner below the upper one. -/
def OrderedBoxes (changes : List Change) : Prop :=
  ∀ e position bounds, .update e position bounds ∈ changes → (extent position bounds).Ordered

theorem orderedBoxes_iff {changes : List Change} :
    OrderedBoxes changes ↔ ∀ box ∈ changes.filterMap Change.box?, box.Ordered := by
  simp only [mem_boxes]
  exact ⟨fun h box ⟨e, position, bounds, hmem, heq⟩ => heq ▸ h e position bounds hmem,
    fun h e position bounds hmem => h _ ⟨e, position, bounds, hmem, rfl⟩⟩

theorem ordered_of_tracked {changes : List Change} (h : OrderedBoxes changes) {e : Handle}
    {box : Box} (htracked : trackedBoxes changes e = some box) : box.Ordered := by
  obtain ⟨position, bounds, hmem, rfl⟩ := exists_update_of_tracked htracked
  exact h e position bounds hmem

/-- The boxes of all updates have finite corners. -/
def FiniteBoxes (changes : List Change) : Prop :=
  ∀ e position bounds, .update e position bounds ∈ changes →
    (extent position bounds).isFinite = true

theorem finiteBoxes_iff {changes : List Change} :
    FiniteBoxes changes ↔ ∀ box ∈ changes.filterMap Change.box?, box.isFinite = true := by
  simp only [mem_boxes]
  exact ⟨fun h box ⟨e, position, bounds, hmem, heq⟩ => heq ▸ h e position bounds hmem,
    fun h e position bounds hmem => h _ ⟨e, position, bounds, hmem, rfl⟩⟩

theorem isReal_of_tracked {changes : List Change} (h : FiniteBoxes changes) {e : Handle}
    {box : Box} (htracked : trackedBoxes changes e = some box) : box.IsReal := by
  obtain ⟨position, bounds, hmem, rfl⟩ := exists_update_of_tracked htracked
  exact Box.isReal_of_isFinite (h e position bounds hmem)

namespace SpatialIndex

variable {ι : Type} [SpatialIndex ι]

@[simp] theorem run_nil (index : ι) : run index [] = index := rfl

@[simp]
theorem run_cons (index : ι) (change : Change) (changes : List Change) :
    run index (change :: changes) = run (apply index change).1 changes := rfl

theorem run_append (index : ι) (before after : List Change) :
    run index (before ++ after) = run (run index before) after := List.foldl_append

/-- All that there is to report about a sequence of changes. -/
def journal (index : ι) : List Change → List Entry
  | [] => []
  | change :: changes => (apply index change).2 ++ journal (apply index change).1 changes

/-- An index inside of another one runs by itself. -/
theorem run_map {κ : Type} [SpatialIndex κ] {f : ι → κ}
    (h : ∀ index change, (apply (f index) change).1 = f (apply index change).1) (index : ι)
    (changes : List Change) : run (f index) changes = f (run index changes) := by
  induction changes generalizing index with
  | nil => rfl
  | cons change changes ih => rw [run_cons, run_cons, h, ih]

end SpatialIndex

end Broadphase
