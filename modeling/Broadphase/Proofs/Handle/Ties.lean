import Mathlib
import Broadphase.Proofs.Handle.Digits
import Broadphase.Proofs.Handover

/-!
Ties in sorted answers. A sort by digits puts handles in order of their identifiers and may leave
those of one identifier in any order. Two indices that hand over the same handles then answer
with the same identifiers at the same places, and every list that is possible for the one is
possible for the other. The lists are equal where there are no ties, and where ties are put in
order of generation.
-/

namespace Broadphase

namespace Handle.DigitSort

/-- A sort that leaves handles of one identifier in their order. -/
def stable : DigitSort where
  sort := sortById
  perm handles := (ascends_sortById handles).perm
  ascending handles := (ascends_sortById handles).ascending.imp digits_le_iff.mpr

/-- Handles of one identifier come in ascending order of generation. -/
def SettlesTies (s : DigitSort) : Prop :=
  ∀ handles, (s.sort handles).Pairwise fun a b => a.id = b.id → a.generation ≤ b.generation

variable {handles handles' : List Handle} (h : handles.Perm handles') (s s' : DigitSort)

include h

theorem sort_perm_sort : (s.sort handles).Perm (s'.sort handles') :=
  ((s.perm handles).trans h).trans (s'.perm handles').symm

theorem ids_eq_of_perm :
    (s.sort handles).map Handle.id = (s'.sort handles').map Handle.id := by
  have hsame : Ascends handles (s'.sort handles') :=
    ⟨(s'.perm handles').trans h.symm, (s'.ascends handles').ascending⟩
  exact (s.ascends handles).ids_eq hsame

/-- Where no identifier comes twice there are no ties. -/
theorem sort_eq_of_nodup (hids : ((s.sort handles).map Handle.id).Nodup) :
    s.sort handles = s'.sort handles' := by
  have hperm := sort_perm_sort h s s'
  refine hperm.eq_of_pairwise ?_ (s.ascends handles).ascending (s'.ascends handles').ascending
  intro a b ha hb hab hba
  have hb' : b ∈ s.sort handles := hperm.mem_iff.mpr hb
  exact List.inj_on_of_nodup_map hids ha hb' (UInt32.le_antisymm hab hba)

theorem sort_eq_of_settlesTies {s s' : DigitSort} (hs : s.SettlesTies) (hs' : s'.SettlesTies) :
    s.sort handles = s'.sort handles' := by
  refine (sort_perm_sort h s s').eq_of_pairwise ?_ ((s.ascends handles).ascending.and (hs handles))
    ((s'.ascends handles').ascending.and (hs' handles'))
  rintro a b - - ⟨hab, hgeneration⟩ ⟨hba, hgeneration'⟩
  have hid : a.id = b.id := UInt32.le_antisymm hab hba
  have hsame : a.generation = b.generation :=
    UInt32.le_antisymm (hgeneration hid) (hgeneration' hid.symm)
  cases a
  cases b
  exact congr (congrArg Handle.mk hid) hsame

/-- What a sort makes of a list some sort makes of each rearrangement. -/
theorem exists_sort_eq : ∃ s' : DigitSort, s'.sort handles' = s.sort handles := by
  classical
  refine ⟨⟨fun l => if l = handles' then s.sort handles else s.sort l, ?_, ?_⟩, if_pos rfl⟩
  · intro l
    split_ifs with hl
    · exact hl ▸ (s.perm handles).trans h
    · exact s.perm l
  · intro l
    split_ifs
    · exact s.ascending handles
    · exact s.ascending l

end Handle.DigitSort

open Handle (DigitSort)

/-- Two indices answer a query alike, as far as a sort of the answers by digits tells. -/
structure SortedAlike {ι κ : Type} [SpatialIndex ι] [SpatialIndex κ] (index : ι) (other : κ)
    (region : Region) : Prop where
  ids_eq : ∀ s s' : DigitSort, (SpatialIndex.query index region s.sort).map Handle.id =
    (SpatialIndex.query other region s'.sort).map Handle.id
  /-- A list is a possible answer of the one if it is one of the other. -/
  possible_iff : ∀ answer, (∃ s : DigitSort, SpatialIndex.query index region s.sort = answer) ↔
    ∃ s : DigitSort, SpatialIndex.query other region s.sort = answer
  eq_of_distinct : ∀ s s' : DigitSort,
    ((SpatialIndex.query index region s.sort).map Handle.id).Nodup →
      SpatialIndex.query index region s.sort = SpatialIndex.query other region s'.sort
  eq_of_settled : ∀ s : DigitSort, s.SettlesTies →
    SpatialIndex.query index region s.sort = SpatialIndex.query other region s.sort

theorem sortedAlike_of_perm {ι κ : Type} [SpatialIndex ι] [SpatialIndex κ] {index : ι} {other : κ}
    {region : Region} {es es' : List Handle}
    (h : HandsOver (fun _ _ out => SpatialIndex.collect index region out) es)
    (h' : HandsOver (fun _ _ out => SpatialIndex.collect other region out) es')
    (hsorted : SpatialIndex.isDeterministic index = true)
    (hsorted' : SpatialIndex.isDeterministic other = true) (hperm : es.Perm es') :
    SortedAlike index other region := by
  have hanswer (s : DigitSort) : SpatialIndex.query index region s.sort = s.sort es := by
    rw [query_of_handsOver h, if_pos hsorted]
  have hanswer' (s : DigitSort) : SpatialIndex.query other region s.sort = s.sort es' := by
    rw [query_of_handsOver h', if_pos hsorted']
  constructor <;> simp only [hanswer, hanswer']
  · exact DigitSort.ids_eq_of_perm hperm
  · intro answer
    constructor
    · rintro ⟨s, rfl⟩
      exact DigitSort.exists_sort_eq hperm s
    · rintro ⟨s, rfl⟩
      exact DigitSort.exists_sort_eq hperm.symm s
  · exact DigitSort.sort_eq_of_nodup hperm
  · exact fun s hs => DigitSort.sort_eq_of_settlesTies hperm hs hs

end Broadphase
