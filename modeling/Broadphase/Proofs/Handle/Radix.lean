import Mathlib
import Broadphase.Handle.Radix

/-!
The byte-wise sort sorts. One pass rearranges the elements, puts smaller digits
first and keeps any order among elements of equal digit. The passes below a level
compare the bytes below it from the most significant one on, which compares what
the keys are below that level, and four levels are the whole key. The two sorts of
handles together compare identifiers and then generations.
-/

namespace Broadphase

namespace Radix

variable {α : Type}

private theorem foldl_deal (digit : α → UInt8) (elements : List α) (buckets : Array (Array α))
    (d : Nat) :
    (elements.foldl (fun buckets element => buckets.modify (digit element).toNat (·.push element))
      buckets)[d]? =
      (buckets[d]?).map (· ++ (elements.filter fun e => (digit e).toNat = d).toArray) := by
  induction elements generalizing buckets with
  | nil => cases h : buckets[d]? <;> simp [h]
  | cons e elements ih =>
      rw [List.foldl_cons, ih, Array.getElem?_modify]
      by_cases hd : (digit e).toNat = d
      · cases buckets[d]? <;> simp [hd]
      · simp [hd]

/-- The buckets hold the elements by digit, in order. -/
theorem deal_toList (digit : α → UInt8) (elements : List α) :
    (deal digit elements).toList = (List.range 256).map fun d =>
      (elements.filter fun e => (digit e).toNat = d).toArray := by
  apply List.ext_getElem?
  intro d
  rw [Array.getElem?_toList, deal, foldl_deal, List.getElem?_map]
  by_cases hd : d < 256
  · simp [hd]
  · simp [hd]

theorem pass_eq (digit : α → UInt8) (elements : List α) :
    pass digit elements = (List.range 256).flatMap fun d =>
      elements.filter fun e => (digit e).toNat = d := by
  rw [pass, deal_toList, List.flatMap_map]

private theorem flatMap_filter_perm (digit : α → UInt8) (elements : List α) (n : Nat) :
    ((List.range n).flatMap fun d => elements.filter fun e => (digit e).toNat = d).Perm
      (elements.filter fun e => (digit e).toNat < n) := by
  induction n with
  | zero => simp
  | succ n ih =>
      rw [List.range_succ, List.flatMap_append, List.flatMap_singleton]
      have hsplit := List.filter_append_perm (fun e => decide ((digit e).toNat < n))
        (elements.filter fun e => (digit e).toNat < n + 1)
      rw [List.filter_filter, List.filter_filter] at hsplit
      have hlow : (elements.filter fun a => decide ((digit a).toNat < n) &&
          decide ((digit a).toNat < n + 1)) = elements.filter fun e => (digit e).toNat < n :=
        List.filter_congr fun a _ => by
          rw [← Bool.decide_and, decide_eq_decide]
          omega
      have hhigh : (elements.filter fun a => !decide ((digit a).toNat < n) &&
          decide ((digit a).toNat < n + 1)) = elements.filter fun e => (digit e).toNat = n :=
        List.filter_congr fun a _ => by
          rw [← decide_not, ← Bool.decide_and, decide_eq_decide]
          omega
      rw [hlow, hhigh] at hsplit
      exact (ih.append_right _).trans hsplit

theorem pass_perm (digit : α → UInt8) (elements : List α) :
    (pass digit elements).Perm elements := by
  rw [pass_eq]
  refine (flatMap_filter_perm digit elements 256).trans (List.Perm.of_eq ?_)
  exact List.filter_eq_self.mpr fun e _ => decide_eq_true (digit e).toNat_lt

/-- One pass orders by the digit and keeps the order of elements of equal digit. -/
theorem pairwise_pass (digit : α → UInt8) {R : α → α → Prop} {elements : List α}
    (h : elements.Pairwise R) :
    (pass digit elements).Pairwise fun a b =>
      (digit a).toNat < (digit b).toNat ∨ (digit a).toNat = (digit b).toNat ∧ R a b := by
  rw [pass_eq, List.pairwise_flatMap]
  refine ⟨?_, List.pairwise_lt_range.imp fun {d d'} hlt a ha b hb => ?_⟩
  · intro d _
    refine (h.filter _).imp_of_mem fun {a b} ha hb hab => Or.inr ⟨?_, hab⟩
    have ha' := of_decide_eq_true (List.mem_filter.mp ha).2
    have hb' := of_decide_eq_true (List.mem_filter.mp hb).2
    rw [ha', hb']
  · have ha' := of_decide_eq_true (List.mem_filter.mp ha).2
    have hb' := of_decide_eq_true (List.mem_filter.mp hb).2
    exact Or.inl (by omega)

theorem toNat_byte (key : UInt32) {level : Nat} (h : level < levels) :
    (byte key level).toNat = key.toNat / 2 ^ (8 * level) % 256 := by
  unfold byte
  have hlevel : (UInt32.ofNat (8 * level)).toNat % 32 = 8 * level := by
    unfold levels at h
    rw [UInt32.toNat_ofNat']
    omega
  rw [UInt32.toNat_toUInt8, UInt32.toNat_shiftRight, hlevel, Nat.shiftRight_eq_div_pow]

/-- The bytes of a key below a level, the most significant one first. -/
def bytesBelow (key : UInt32) (level : Nat) : List UInt8 :=
  (List.range level).reverse.map (byte key)

theorem bytesBelow_succ (key : UInt32) (level : Nat) :
    bytesBelow key (level + 1) = byte key level :: bytesBelow key level := by
  rw [bytesBelow, List.range_succ, List.reverse_append, List.reverse_singleton,
    List.singleton_append, List.map_cons]
  rfl

/-- What a key is below a level, from its byte under that level and what it is below that. -/
theorem mod_succ_level (key : UInt32) {level : Nat} (h : level < levels) :
    key.toNat % 2 ^ (8 * (level + 1)) =
      2 ^ (8 * level) * (byte key level).toNat + key.toNat % 2 ^ (8 * level) := by
  rw [toNat_byte key h, Nat.mul_succ, pow_add, Nat.mod_mul, Nat.add_comm]
  rfl

theorem mul_add_lt_mul_add_iff {base high high' low low' : ℕ} (h : low < base) (h' : low' < base) :
    base * high + low < base * high' + low' ↔ high < high' ∨ high = high' ∧ low < low' := by
  rcases lt_trichotomy high high' with hlt | rfl | hlt
  · have hstep : base * (high + 1) ≤ base * high' := Nat.mul_le_mul_left base hlt
    rw [Nat.mul_succ] at hstep
    omega
  · omega
  · have hstep : base * (high' + 1) ≤ base * high := Nat.mul_le_mul_left base hlt
    rw [Nat.mul_succ] at hstep
    omega

/-- Comparing the bytes below a level, the most significant one first, compares what the keys are
below that level. -/
theorem bytesBelow_lt_iff (a b : UInt32) {level : Nat} (h : level ≤ levels) :
    bytesBelow a level < bytesBelow b level ↔
      a.toNat % 2 ^ (8 * level) < b.toNat % 2 ^ (8 * level) := by
  induction level with
  | zero => simp [bytesBelow, Nat.mod_one]
  | succ level ih =>
      have hlow : ∀ key : UInt32, key.toNat % 2 ^ (8 * level) < 2 ^ (8 * level) := fun key =>
        Nat.mod_lt _ (Nat.two_pow_pos _)
      rw [bytesBelow_succ, bytesBelow_succ, List.cons_lt_cons_iff, ih (Nat.le_of_succ_le h),
        mod_succ_level a h, mod_succ_level b h, mul_add_lt_mul_add_iff (hlow a) (hlow b),
        UInt8.lt_iff_toNat_lt, UInt8.toNat_inj]

def bytes (key : UInt32) : List UInt8 := bytesBelow key levels

theorem bytes_lt_iff {a b : UInt32} : bytes a < bytes b ↔ a < b := by
  -- The bytes below the last level are the whole key.
  have hwhole : ∀ key : UInt32, key.toNat % 2 ^ (8 * levels) = key.toNat := fun key =>
    Nat.mod_eq_of_lt key.toNat_lt
  rw [bytes, bytes, bytesBelow_lt_iff a b le_rfl, hwhole, hwhole, UInt32.lt_iff_toNat_lt]

theorem bytes_inj {a b : UInt32} : bytes a = bytes b ↔ a = b := by
  constructor
  · intro h
    have hnot : ∀ {c d : UInt32}, bytes c = bytes d → ¬c < d := by
      intro c d heq hlt
      have hbytes := bytes_lt_iff.mpr hlt
      rw [heq] at hbytes
      exact List.lt_irrefl _ hbytes
    exact UInt32.le_antisymm (UInt32.not_lt.mp (hnot h.symm)) (UInt32.not_lt.mp (hnot h))
  · exact congrArg bytes

section Passes

variable (key : α → UInt32)

/-- The first passes, one for each byte below a level. -/
def passesBelow (level : Nat) (elements : List α) : List α :=
  (List.range level).foldl (fun sorted place => pass (fun e => byte (key e) place) sorted) elements

theorem passesBelow_succ (level : Nat) (elements : List α) :
    passesBelow key (level + 1) elements =
      pass (fun e => byte (key e) level) (passesBelow key level elements) := by
  rw [passesBelow, List.range_succ, List.foldl_append, List.foldl_cons, List.foldl_nil]
  rfl

theorem passesBelow_perm (level : Nat) (elements : List α) :
    (passesBelow key level elements).Perm elements := by
  induction level with
  | zero => exact List.Perm.refl _
  | succ level ih =>
      rw [passesBelow_succ]
      exact (pass_perm _ _).trans ih

/-- The passes below a level order by the bytes below it, and keep any order among elements of
which these bytes are equal. -/
theorem pairwise_passesBelow {R : α → α → Prop} {elements : List α} (h : elements.Pairwise R)
    (level : Nat) :
    (passesBelow key level elements).Pairwise fun a b =>
      bytesBelow (key a) level < bytesBelow (key b) level ∨
        bytesBelow (key a) level = bytesBelow (key b) level ∧ R a b := by
  induction level with
  | zero => exact h.imp fun hR => Or.inr ⟨rfl, hR⟩
  | succ level ih =>
      rw [passesBelow_succ]
      refine (pairwise_pass _ ih).imp fun {a b} hab => ?_
      rw [← UInt8.lt_iff_toNat_lt, UInt8.toNat_inj] at hab
      rw [bytesBelow_succ, bytesBelow_succ, List.cons_lt_cons_iff, List.cons.injEq]
      tauto

theorem sortOn_perm (elements : List α) : (sortOn key elements).Perm elements :=
  passesBelow_perm key levels elements

/-- The passes together order by the key and keep the order of elements of equal
key. -/
theorem pairwise_sortOn {R : α → α → Prop} {elements : List α} (h : elements.Pairwise R) :
    (sortOn key elements).Pairwise fun a b => key a < key b ∨ key a = key b ∧ R a b := by
  refine (pairwise_passesBelow key h levels).imp fun {a b} hab => ?_
  exact hab.imp bytes_lt_iff.mp (And.imp_left bytes_inj.mp)

theorem ascending_sortOn (elements : List α) :
    (sortOn key elements).Pairwise fun a b => key a ≤ key b := by
  have hall : elements.Pairwise fun _ _ => True := List.pairwise_of_forall fun _ _ => trivial
  refine (pairwise_sortOn key hall).imp fun {a b} hab => ?_
  rcases hab with hlt | ⟨heq, -⟩
  · exact UInt32.le_of_lt hlt
  · exact UInt32.le_of_eq heq

end Passes

end Radix

namespace Handle

/-- Identifiers decide, generations break ties. -/
def Before (a b : Handle) : Prop :=
  a.id < b.id ∨ a.id = b.id ∧ (a.generation < b.generation ∨ a.generation = b.generation)

theorem Before.antisymm {a b : Handle} (h : Before a b) (h' : Before b a) : a = b := by
  cases a
  cases b
  simp only [Before, UInt32.lt_iff_toNat_lt, ← UInt32.toNat_inj] at h h'
  simp only [mk.injEq, ← UInt32.toNat_inj]
  omega

theorem Before.compare_eq {a b : Handle} (h : Before a b) (hne : a ≠ b) : compare a b = .lt := by
  have hthen : compare a b = (compare a.id b.id).then (compare a.generation b.generation) := rfl
  rw [hthen, Ordering.then_eq_lt]
  simp only [Std.compare_eq_lt, Std.LawfulEqOrd.compare_eq_iff_eq]
  rcases h with hid | ⟨hid, hgeneration | hgeneration⟩
  · exact Or.inl hid
  · exact Or.inr ⟨hid, hgeneration⟩
  · cases a
    cases b
    exact absurd (congr (congrArg mk hid) hgeneration) hne

theorem sort_perm (handles : List Handle) : (sort handles).Perm handles := by
  unfold sort sortById
  exact (Radix.sortOn_perm id _).trans (Radix.sortOn_perm generation handles)

theorem pairwise_sort (handles : List Handle) : (sort handles).Pairwise Before := by
  have hall : handles.Pairwise fun _ _ => True := List.pairwise_of_forall fun _ _ => trivial
  unfold sort sortById
  refine (Radix.pairwise_sortOn id (Radix.pairwise_sortOn generation hall)).imp fun {a b} hab => ?_
  rcases hab with hlt | ⟨heq, hlt | ⟨hsame, -⟩⟩
  · exact Or.inl hlt
  · exact Or.inr ⟨heq, Or.inl hlt⟩
  · exact Or.inr ⟨heq, Or.inr hsame⟩

/-- Different handles are strictly ascending once they are sorted. -/
theorem pairwise_compare_sort {handles : List Handle} (h : handles.Nodup) :
    (sort handles).Pairwise fun a b => compare a b = .lt := by
  have hnodup : (sort handles).Nodup := (sort_perm handles).nodup_iff.mpr h
  exact ((pairwise_sort handles).and hnodup).imp fun hab => hab.1.compare_eq hab.2

/-- Sorting does not depend on the order of the handles before. -/
theorem sort_eq_of_perm {handles handles' : List Handle} (h : handles.Perm handles') :
    sort handles = sort handles' := by
  have hperm : (sort handles).Perm (sort handles') :=
    ((sort_perm handles).trans h).trans (sort_perm handles').symm
  exact hperm.eq_of_pairwise (fun _ _ _ _ => Before.antisymm) (pairwise_sort handles)
    (pairwise_sort handles')

end Handle

end Broadphase
