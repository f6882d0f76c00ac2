import Mathlib
import Broadphase.SwapErase

/-!
Removal by swapping takes exactly one element away, up to the order of the rest.
-/

namespace Broadphase

variable {α : Type}

theorem swapEraseAt_perm (xs : Array α) (i : Nat) (h : i < xs.size) :
    ((swapEraseAt xs i).push xs[i]).Perm xs := by
  have hlast : xs.size - 1 < xs.size := Nat.sub_one_lt_of_lt h
  have hpush : (xs.swap i (xs.size - 1) h hlast).pop.push xs[i] =
      xs.swap i (xs.size - 1) h hlast := by
    refine Array.ext (by simp; omega) fun j hj hj' => ?_
    rw [Array.getElem_push]
    split
    · exact Array.getElem_pop _
    · rename_i hnot
      rw [Array.size_pop, Array.size_swap] at hnot
      rw [Array.size_swap] at hj'
      obtain rfl : j = xs.size - 1 := by omega
      exact Array.getElem_swap_right.symm
  unfold swapEraseAt
  rw [dif_pos h, hpush]
  exact Array.swap_perm h hlast

/-- The element at a position after a removal: the last one has taken the place. -/
theorem getElem?_swapEraseAt (xs : Array α) (i : Nat) (h : i < xs.size) (j : Nat) :
    (swapEraseAt xs i)[j]? =
      if j < xs.size - 1 then (if j = i then xs[xs.size - 1]? else xs[j]?) else none := by
  unfold swapEraseAt
  rw [dif_pos h, Array.getElem?_pop, Array.getElem?_swap, Array.size_swap]
  have hlast : xs.size - 1 < xs.size := Nat.sub_one_lt_of_lt h
  split_ifs with hj hlow hhigh <;> first | rfl | omega | simp [hlast]

section

variable [BEq α] [LawfulBEq α]

theorem swapErase_of_not_mem {xs : Array α} {x : α} (h : x ∉ xs) : swapErase xs x = xs := by
  unfold swapErase
  rw [Array.finIdxOf?_eq_none_iff.mpr h]

theorem swapErase_perm {xs : Array α} {x : α} (h : x ∈ xs) :
    ((swapErase xs x).push x).Perm xs := by
  unfold swapErase
  cases hidx : xs.finIdxOf? x with
  | none => exact absurd h (Array.finIdxOf?_eq_none_iff.mp hidx)
  | some i =>
      have hget : xs[i.val] = x := (Array.finIdxOf?_eq_some_iff.mp hidx).1
      have hperm := swapEraseAt_perm xs i i.isLt
      rw [hget] at hperm
      exact hperm

theorem size_swapErase {xs : Array α} {x : α} (h : x ∈ xs) :
    (swapErase xs x).size + 1 = xs.size := by
  rw [← Array.size_push, (swapErase_perm h).size_eq]

theorem size_swapErase_le (xs : Array α) (x : α) : (swapErase xs x).size ≤ xs.size := by
  by_cases h : x ∈ xs
  · have hsize := size_swapErase h
    omega
  · rw [swapErase_of_not_mem h]

/-- Of elements that occur once each, the given one is gone and the others stay. -/
theorem swapErase_spec {xs : Array α} {x : α} (hnodup : xs.toList.Nodup) :
    (swapErase xs x).toList.Nodup ∧ ∀ y, y ∈ swapErase xs x ↔ y ∈ xs ∧ y ≠ x := by
  by_cases h : x ∈ xs
  · have hperm : ((swapErase xs x).toList ++ [x]).Perm xs.toList := by
      have hlist := (swapErase_perm h).toList
      rwa [Array.toList_push] at hlist
    have hnodup' := hperm.nodup_iff.mpr hnodup
    obtain ⟨hrest, -, hdisjoint⟩ := List.nodup_append.mp hnodup'
    refine ⟨hrest, ?_⟩
    intro y
    have hmem := hperm.mem_iff (a := y)
    rw [List.mem_append, List.mem_singleton, Array.mem_toList_iff, Array.mem_toList_iff] at hmem
    rw [← hmem]
    refine ⟨fun hy => ⟨Or.inl hy, ?_⟩, fun hy => hy.1.resolve_right hy.2⟩
    exact hdisjoint y (Array.mem_toList_iff.mpr hy) x (List.mem_singleton.mpr rfl)
  · rw [swapErase_of_not_mem h]
    refine ⟨hnodup, fun y => ⟨fun hy => ⟨hy, ?_⟩, fun hy => hy.1⟩⟩
    rintro rfl
    exact h hy

end

end Broadphase
