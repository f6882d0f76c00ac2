import Mathlib
import Broadphase.Grid.Cursor

/-!
The cells of a block. A step leads from a cell of the block to the least cell of the block
behind it, or there is none behind it. So a cursor reads, in ascending order, exactly the cells
from where it stands on, and the list of a block has each cell between the corners once. The
common part of two blocks has the cells that are in both.
-/

namespace Broadphase

/-- Cells are compared by the last coordinate first. -/
theorem CellKey.compare_eq_lt {j k : CellKey} : compare j k = .lt ↔
    j.z.toInt < k.z.toInt ∨ j.z.toInt = k.z.toInt ∧
      (j.y.toInt < k.y.toInt ∨ j.y.toInt = k.y.toInt ∧ j.x.toInt < k.x.toInt) := by
  have hthen : compare j k =
      (compare j.z k.z).then ((compare j.y k.y).then (compare j.x k.x)) := rfl
  rw [hthen, Ordering.then_eq_lt, Ordering.then_eq_lt]
  simp only [Std.compare_eq_lt, Std.LawfulEqOrd.compare_eq_iff_eq, Int32.lt_iff_toInt_lt,
    Int32.toInt_inj]

theorem CellKey.eq_iff_toInt {j k : CellKey} : j = k ↔
    j.x.toInt = k.x.toInt ∧ j.y.toInt = k.y.toInt ∧ j.z.toInt = k.z.toInt := by
  cases j
  cases k
  simp only [mk.injEq, Int32.toInt_inj]

namespace CellRange

variable {r : CellRange} {j k : CellKey}

theorem contains_iff : r.contains k = true ↔
    (r.min.x ≤ k.x ∧ k.x ≤ r.max.x) ∧ (r.min.y ≤ k.y ∧ k.y ≤ r.max.y) ∧
      r.min.z ≤ k.z ∧ k.z ≤ r.max.z := by
  simp only [contains, Bool.and_eq_true, decide_eq_true_eq]
  tauto

theorem isEmpty_eq_false_of_contains (h : r.contains k = true) : r.isEmpty = false := by
  obtain ⟨⟨hx, hx'⟩, ⟨hy, hy'⟩, hz, hz'⟩ := contains_iff.mp h
  simp only [isEmpty, Bool.or_eq_false_iff, decide_eq_false_iff_not, Int32.not_lt]
  exact ⟨⟨Int32.le_trans hx hx', Int32.le_trans hy hy'⟩, Int32.le_trans hz hz'⟩

theorem isEmpty_eq_false : r.isEmpty = false ↔
    r.min.x ≤ r.max.x ∧ r.min.y ≤ r.max.y ∧ r.min.z ≤ r.max.z := by
  simp only [isEmpty, Bool.or_eq_false_iff, decide_eq_false_iff_not, Int32.not_lt, and_assoc]

theorem contains_min (h : r.isEmpty = false) : r.contains r.min = true := by
  obtain ⟨hx, hy, hz⟩ := isEmpty_eq_false.mp h
  exact contains_iff.mpr ⟨⟨Int32.le_refl _, hx⟩, ⟨Int32.le_refl _, hy⟩, Int32.le_refl _, hz⟩

/-- No cell of a block is before its lower corner. -/
theorem eq_min_or_lt (hk : r.contains k = true) : k = r.min ∨ compare r.min k = .lt := by
  simp only [contains_iff, Int32.le_iff_toInt_le] at hk
  rw [CellKey.compare_eq_lt, CellKey.eq_iff_toInt]
  omega

theorem Carries.contains (h : r.Carries j k) (hj : r.contains j = true) :
    r.contains k = true := by
  simp only [contains_iff, Int32.le_iff_toInt_le] at hj ⊢
  cases h with
  | x below raised y_eq z_eq =>
      rw [Int32.lt_iff_toInt_lt] at below
      rw [y_eq, z_eq]
      omega
  | y _ below x_eq raised z_eq =>
      rw [Int32.lt_iff_toInt_lt] at below
      rw [x_eq, z_eq]
      omega
  | z _ _ below x_eq y_eq raised =>
      rw [Int32.lt_iff_toInt_lt] at below
      rw [x_eq, y_eq]
      omega

/-- A step goes up, and over no cell of the block. -/
theorem Carries.lt_iff (h : r.Carries j k) {i : CellKey} (hi : r.contains i = true) :
    compare j i = .lt ↔ i = k ∨ compare k i = .lt := by
  simp only [contains_iff, Int32.le_iff_toInt_le] at hi
  rw [CellKey.compare_eq_lt, CellKey.compare_eq_lt, CellKey.eq_iff_toInt]
  -- A coordinate that starts over leaves its upper end, beyond which the block has no cell.
  cases h with
  | x below raised y_eq z_eq =>
      rw [y_eq, z_eq]
      omega
  | y x_ends below x_eq raised z_eq =>
      rw [Int32.le_iff_toInt_le] at x_ends
      rw [x_eq, z_eq]
      omega
  | z x_ends y_ends below x_eq y_eq raised =>
      rw [Int32.le_iff_toInt_le] at x_ends y_ends
      rw [x_eq, y_eq]
      omega

theorem not_lt_of_after?_eq_none (h : r.after? j = none) (hk : r.contains k = true) :
    ¬compare j k = .lt := by
  simp only [contains_iff, Int32.le_iff_toInt_le] at hk
  rw [CellKey.compare_eq_lt]
  unfold after? at h
  split_ifs at h with hx hy hz
  rw [Int32.not_lt, Int32.le_iff_toInt_le] at hx hy hz
  omega

/-- The cells of the block behind a cell are the one to which the step leads and those behind
that one. Where there is no step there are none. -/
theorem lt_iff_after? (hk : r.contains k = true) :
    compare j k = .lt ↔ ∃ next, r.after? j = some next ∧ (k = next ∨ compare next k = .lt) := by
  cases h : r.after? j with
  | none => simp [not_lt_of_after?_eq_none h hk]
  | some next => simp [(carries_of_after? h).lt_iff hk]

end CellRange

namespace CellCursor

variable {c : CellCursor} {j k : CellKey}

/-- The upcoming cell is one of the block. -/
def Inside (c : CellCursor) : Prop := ∀ k, c.upcoming = some k → c.range.contains k = true

theorem Inside.after (h : c.Inside) (hk : c.upcoming = some k) :
    Inside ⟨c.range, c.range.after? k⟩ :=
  fun _ hnext => (CellRange.carries_of_after? hnext).contains (h k hk)

theorem inside_cursor (r : CellRange) : r.cursor.Inside := by
  intro k hk
  unfold CellRange.cursor at hk ⊢
  simp only at hk ⊢
  split_ifs at hk with hempty
  obtain rfl := Option.some.inj hk
  exact CellRange.contains_min (Bool.eq_false_of_not_eq_true hempty)

theorem head?_toList (c : CellCursor) : c.toList.head? = c.upcoming := by
  cases h : c.upcoming with
  | none => rw [toList_of_none h, List.head?_nil]
  | some k => rw [toList_of_some h, List.head?_cons]

/-- A cursor reads its upcoming cell and all cells of the block behind it. -/
theorem mem_toList (h : c.Inside) : j ∈ c.toList ↔
    c.range.contains j = true ∧ ∃ k, c.upcoming = some k ∧ (j = k ∨ compare k j = .lt) := by
  -- From the end of the block backwards: what is left has the cells behind the upcoming one.
  induction c using induction with
  | done c hnone => simp [toList_of_none hnone, hnone]
  | step c k hk ih =>
      have hkin : c.range.contains k = true := h k hk
      rw [toList_of_some hk, List.mem_cons, ih (h.after hk)]
      simp only [hk, Option.some.injEq, exists_eq_left']
      constructor
      · rintro (rfl | ⟨hj, hafter⟩)
        · exact ⟨hkin, Or.inl rfl⟩
        · exact ⟨hj, Or.inr ((CellRange.lt_iff_after? hj).mpr hafter)⟩
      · rintro ⟨hj, rfl | hlt⟩
        · exact Or.inl rfl
        · exact Or.inr ⟨hj, (CellRange.lt_iff_after? hj).mp hlt⟩

theorem ascending_toList (h : c.Inside) : c.toList.Pairwise fun j k => compare j k = .lt := by
  induction c using induction with
  | done c hnone =>
      rw [toList_of_none hnone]
      exact List.Pairwise.nil
  | step c k hk ih =>
      rw [toList_of_some hk]
      refine List.pairwise_cons.mpr ⟨?_, ih (h.after hk)⟩
      intro j hj
      obtain ⟨hin, hafter⟩ := (mem_toList (h.after hk)).mp hj
      exact (CellRange.lt_iff_after? hin).mpr hafter

/-- From each cell that is read to the one behind it there is one step. -/
theorem isChain_toList (c : CellCursor) : c.toList.IsChain c.range.Carries := by
  induction c using induction with
  | done c hnone =>
      rw [toList_of_none hnone]
      exact List.IsChain.nil
  | step c k hk ih =>
      rw [toList_of_some hk, List.isChain_cons]
      refine ⟨?_, ih⟩
      intro next hnext
      rw [head?_toList] at hnext
      exact CellRange.carries_of_after? hnext

end CellCursor

namespace CellRange

variable {r s : CellRange} {k : CellKey}

theorem mem_toList : k ∈ r.toList ↔ r.contains k = true := by
  rw [toList, CellCursor.mem_toList (CellCursor.inside_cursor r)]
  constructor
  · exact And.left
  · intro hk
    have hsome : r.cursor.upcoming = some r.min := by
      simp [cursor, isEmpty_eq_false_of_contains hk]
    exact ⟨hk, r.min, hsome, eq_min_or_lt hk⟩

theorem ascending_toList (r : CellRange) :
    r.toList.Pairwise fun j k => compare j k = .lt :=
  CellCursor.ascending_toList (CellCursor.inside_cursor r)

theorem nodup_toList (r : CellRange) : r.toList.Nodup := by
  refine r.ascending_toList.imp fun {j k} hlt => ?_
  rintro rfl
  rw [Std.ReflOrd.compare_self] at hlt
  cases hlt

theorem upper_le_iff {a b c : Int32} : upper a b ≤ c ↔ a ≤ c ∧ b ≤ c := by
  unfold upper
  split_ifs with h
  · exact ⟨fun hb => ⟨Int32.le_trans h hb, hb⟩, And.right⟩
  · have hle := Int32.le_of_lt (Int32.not_le.mp h)
    exact ⟨fun ha => ⟨ha, Int32.le_trans hle ha⟩, And.left⟩

theorem le_lower_iff {a b c : Int32} : c ≤ lower a b ↔ c ≤ a ∧ c ≤ b := by
  unfold lower
  split_ifs with h
  · exact ⟨fun ha => ⟨ha, Int32.le_trans ha h⟩, And.left⟩
  · have hle := Int32.le_of_lt (Int32.not_le.mp h)
    exact ⟨fun hb => ⟨Int32.le_trans hb hle, hb⟩, And.right⟩

theorem contains_intersection :
    (r.intersection s).contains k = true ↔ r.contains k = true ∧ s.contains k = true := by
  simp only [contains_iff, intersection, upper_le_iff, le_lower_iff]
  tauto

/-- A block of one cell has no other. -/
theorem eq_of_isSingle (h : r.isSingle = true) (hk : r.contains k = true) : k = r.min := by
  have hcorners : r.min = r.max := of_decide_eq_true h
  obtain ⟨⟨hx, hx'⟩, ⟨hy, hy'⟩, hz, hz'⟩ := contains_iff.mp hk
  rw [← hcorners] at hx' hy' hz'
  obtain ⟨x, y, z⟩ := k
  exact CellKey.mk.injEq .. |>.mpr
    ⟨Int32.le_antisymm hx' hx, Int32.le_antisymm hy' hy, Int32.le_antisymm hz' hz⟩

theorem find?_isSome_iff {p : CellKey → Bool} :
    (∃ k, r.find? p = some k) ↔ ∃ k, r.contains k = true ∧ p k = true := by
  rw [find?_eq_find?_toList, ← Option.isSome_iff_exists, List.find?_isSome]
  simp only [mem_toList]

theorem of_find?_eq_some {p : CellKey → Bool} (h : r.find? p = some k) :
    r.contains k = true ∧ p k = true := by
  rw [find?_eq_find?_toList] at h
  exact ⟨mem_toList.mp (List.mem_of_find?_eq_some h), List.find?_some h⟩

end CellRange

end Broadphase
