import Mathlib
import Broadphase.Proofs.Grid.Range

/-!
How the cells of a block are gone through, for blocks of any two corners. The calls of a cursor
answer each cell of the block once, in ascending order from the lower corner on, and nothing after
the last one. No coordinate overflows on the way, not even at the ends of the 32-bit numbers. The
number of cells is a product of three widths of up to `2 ^ 32` and is right as long as it fits
into a word of 64 bits.
-/

namespace Broadphase

namespace CellCursor

/-- The cursor after a number of calls. -/
def advance (c : CellCursor) : (calls : Nat) → CellCursor
  | 0 => c
  | calls + 1 => c.next.2.advance calls

/-- A call answers the next cell of the list, and nothing once there are no more. -/
theorem next_advance (c : CellCursor) (calls : Nat) :
    (c.advance calls).next.1 = c.toList[calls]? := by
  induction calls generalizing c with
  | zero =>
      cases h : c.upcoming with
      | none => rw [advance, next_of_none h, toList_of_none h, List.getElem?_nil]
      | some k => rw [advance, next_of_some h, toList_of_some h, List.getElem?_cons_zero]
  | succ calls ih =>
      rw [advance, ih]
      cases h : c.upcoming with
      | none => rw [next_of_none h, toList_of_none h, List.getElem?_nil, List.getElem?_nil]
      | some k => rw [next_of_some h, toList_of_some h, List.getElem?_cons_succ]

end CellCursor

namespace CellRange

theorem head?_toList (r : CellRange) :
    r.toList.head? = if r.isEmpty then none else some r.min :=
  r.cursor.head?_toList

section Length

variable {lo hi : Int32}

theorem exists_toInt_eq {a : ℤ} (hlo : lo.toInt ≤ a) (hhi : a ≤ hi.toInt) :
    ∃ i : Int32, i.toInt = a := by
  have hlow := lo.le_toInt
  have hhigh := hi.toInt_lt
  refine ⟨Int32.ofInt a, ?_⟩
  rw [Int32.toInt_ofInt]
  exact Int.bmod_eq_of_le (by norm_num; omega) (by norm_num; omega)

theorem card_Icc_toInt (lo hi : Int32) : (Finset.Icc lo.toInt hi.toInt).card = width lo hi := by
  rw [Int.card_Icc, width]
  congr 1
  ring

/-- The numbers that the coordinates of a cell stand for. -/
def numbers (k : CellKey) : ℤ × ℤ × ℤ := (k.x.toInt, k.y.toInt, k.z.toInt)

theorem numbers_injective : Function.Injective numbers := by
  intro j k h
  simp only [numbers, Prod.mk.injEq] at h
  exact CellKey.eq_iff_toInt.mpr h

/-- The cells of a block are those with numbers between those of the corners on each axis. -/
theorem toFinset_numbers (r : CellRange) : (r.toList.map numbers).toFinset =
    Finset.Icc r.min.x.toInt r.max.x.toInt ×ˢ Finset.Icc r.min.y.toInt r.max.y.toInt ×ˢ
      Finset.Icc r.min.z.toInt r.max.z.toInt := by
  ext ⟨a, b, c⟩
  simp only [List.mem_toFinset, List.mem_map, mem_toList, contains_iff, Int32.le_iff_toInt_le,
    Finset.mem_product, Finset.mem_Icc, numbers, Prod.mk.injEq]
  constructor
  · rintro ⟨k, hk, rfl, rfl, rfl⟩
    exact hk
  · rintro ⟨⟨hx, hx'⟩, ⟨hy, hy'⟩, hz, hz'⟩
    obtain ⟨x, rfl⟩ := exists_toInt_eq hx hx'
    obtain ⟨y, rfl⟩ := exists_toInt_eq hy hy'
    obtain ⟨z, rfl⟩ := exists_toInt_eq hz hz'
    exact ⟨⟨x, y, z⟩, ⟨⟨hx, hx'⟩, ⟨hy, hy'⟩, hz, hz'⟩, rfl, rfl, rfl⟩

theorem length_toList (r : CellRange) : r.toList.length =
    width r.min.x r.max.x * width r.min.y r.max.y * width r.min.z r.max.z := by
  have hnodup : (r.toList.map numbers).Nodup := r.nodup_toList.map numbers_injective
  calc r.toList.length
      = (r.toList.map numbers).toFinset.card := by
        rw [List.toFinset_card_of_nodup hnodup, List.length_map]
    _ = width r.min.x r.max.x * width r.min.y r.max.y * width r.min.z r.max.z := by
        rw [toFinset_numbers, Finset.card_product, Finset.card_product, card_Icc_toInt,
          card_Icc_toInt, card_Icc_toInt, mul_assoc]

end Length

section Count

/-- The words with which a width is computed do not overflow. -/
theorem toNat_widthWord {lo hi : Int32} (h : lo ≤ hi) : (widthWord lo hi).toNat = width lo hi := by
  rw [Int32.le_iff_toInt_le] at h
  have hlow := lo.le_toInt
  have hhigh := hi.toInt_lt
  have hvalue : (hi.toInt64 - lo.toInt64 + 1).toInt = hi.toInt - lo.toInt + 1 := by
    have hdifference : (hi.toInt64 - lo.toInt64).toInt = hi.toInt - lo.toInt := by
      rw [Int64.toInt_sub, Int32.toInt_toInt64, Int32.toInt_toInt64]
      exact Int.bmod_eq_of_le (by omega) (by omega)
    rw [Int64.toInt_add, hdifference, Int64.toInt_one]
    exact Int.bmod_eq_of_le (by omega) (by omega)
  have hnonneg : 0 ≤ hi.toInt64 - lo.toInt64 + 1 := by
    rw [Int64.le_iff_toInt_le, hvalue, Int64.toInt_zero]
    omega
  have hword : (widthWord lo hi).toNat = (hi.toInt64 - lo.toInt64 + 1).toInt.toNat :=
    Int64.toNat_toUInt64_of_le hnonneg
  rw [hword, hvalue, width]

theorem toNat_cutProduct (a b : UInt64) :
    (cutProduct a b).toNat = a.toNat * b.toNat ⊓ (2 ^ 64 - 1) := by
  have hsize : UInt64.size = 2 ^ 64 := rfl
  unfold cutProduct
  split_ifs with h
  · rw [hsize] at h
    rw [UInt64.toNat_mul, Nat.mod_eq_of_lt h, inf_eq_left.mpr (Nat.le_sub_one_of_lt h)]
  · rw [hsize, Nat.not_lt] at h
    rw [inf_eq_right.mpr ((Nat.sub_le _ 1).trans h)]
    rfl

/-- A product that is cut off may be cut off before it is multiplied. -/
theorem cut_mul_cut {n m limit : ℕ} (hm : 0 < m) : (n ⊓ limit) * m ⊓ limit = n * m ⊓ limit := by
  rcases le_total n limit with hle | hle
  · rw [inf_eq_left.mpr hle]
  · rw [inf_eq_right.mpr hle, inf_eq_right.mpr (Nat.le_mul_of_pos_right limit hm),
      inf_eq_right.mpr (hle.trans (Nat.le_mul_of_pos_right n hm))]

theorem width_pos {lo hi : Int32} (h : lo ≤ hi) : 0 < width lo hi := by
  rw [Int32.le_iff_toInt_le] at h
  unfold width
  omega

theorem count_eq (r : CellRange) : r.count = r.toList.length ⊓ (2 ^ 64 - 1) := by
  rw [count, countWord]
  cases hempty : r.isEmpty with
  | true =>
      have hnothing : r.toList = [] := by
        rw [← List.head?_eq_none_iff, head?_toList, hempty]
        rfl
      rw [hnothing]
      rfl
  | false =>
      obtain ⟨hx, hy, hz⟩ := isEmpty_eq_false.mp hempty
      rw [length_toList, if_neg Bool.false_ne_true, toNat_cutProduct, toNat_cutProduct,
        toNat_widthWord hx, toNat_widthWord hy, toNat_widthWord hz, cut_mul_cut (width_pos hz)]

end Count

/-- How a block is gone through. -/
structure Enumerated (r : CellRange) : Prop where
  /-- The calls of a new cursor answer the cells of the list, and then nothing for ever. -/
  calls : ∀ n, (r.cursor.advance n).next.1 = r.toList[n]?
  once : ∀ k, r.toList.count k = if r.contains k then 1 else 0
  ascending : r.toList.Pairwise fun j k => compare j k = .lt
  first : r.toList.head? = if r.isEmpty then none else some r.min
  /-- What is added to a coordinate from one cell to the next is added without overflow. -/
  steps : r.toList.IsChain r.Carries
  count_eq : r.count = r.toList.length ⊓ (2 ^ 64 - 1)

/-- A block of any two corners is gone through from its lower corner on, each cell once, in
ascending order and without overflow, and then the calls answer nothing. Its count is the number
of these cells unless that does not fit into a word. The common part of two blocks has the cells
of both. -/
theorem enumerated_blocks (r s : CellRange) :
    r.Enumerated ∧ ∀ k, (r.intersection s).contains k = true ↔
      r.contains k = true ∧ s.contains k = true := by
  refine ⟨⟨r.cursor.next_advance, ?_, r.ascending_toList, r.head?_toList, r.cursor.isChain_toList,
    r.count_eq⟩, fun _ => contains_intersection⟩
  intro k
  split_ifs with hk
  · exact List.count_eq_one_of_mem r.nodup_toList (mem_toList.mpr hk)
  · exact List.count_eq_zero_of_not_mem fun hmem => hk (mem_toList.mp hmem)

/-- The last cells of all, with a carry between them, and a block of all cells. One that is empty
on its last axis only has none. -/
example :
    (CellRange.mk ⟨2147483646, 2147483646, 2147483647⟩
        ⟨2147483647, 2147483647, 2147483647⟩).toList =
        [⟨2147483646, 2147483646, 2147483647⟩, ⟨2147483647, 2147483646, 2147483647⟩,
          ⟨2147483646, 2147483647, 2147483647⟩, ⟨2147483647, 2147483647, 2147483647⟩] ∧
      (CellRange.mk ⟨-2147483648, -2147483648, -2147483648⟩
        ⟨2147483647, 2147483647, 2147483647⟩).count = 2 ^ 64 - 1 ∧
      (CellRange.mk ⟨-2147483648, -2147483648, 1⟩ ⟨2147483647, 2147483647, 0⟩).toList = [] := by
  decide +kernel

end CellRange

end Broadphase
