import Mathlib
import Broadphase.LinearScan
import Broadphase.Proofs.Handle.Ties
import Broadphase.Proofs.History
import Broadphase.Proofs.SwapErase

/-!
The scan answers every query exactly. The recorded positions and the row agree, so
each entity is in the row once, with the box of the history.
-/

namespace Broadphase

namespace LinearScan

variable {s s' : LinearScan}

/-- An entity has a position exactly if it is in the row there. -/
structure Indexed (s : LinearScan) : Prop where
  slot_iff : ∀ (e : Handle) i, s.slots[e]? = some i ↔ ∃ box, s.entries[i]? = some (e, box)

def boxOf (s : LinearScan) (e : Handle) : Option Box :=
  (s.slots[e]?).bind fun i : Nat => (s.entries[i]?).map Prod.snd

def Has (s : LinearScan) (e : Handle) (box : Box) : Prop := ∃ i : Nat, s.entries[i]? = some (e, box)

namespace Indexed

theorem boxOf_eq_some (h : s.Indexed) {e : Handle} {box : Box} :
    s.boxOf e = some box ↔ s.Has e box := by
  constructor
  · intro hbox
    obtain ⟨i, hslot, hentry⟩ := Option.bind_eq_some_iff.mp hbox
    obtain ⟨box', hentry'⟩ := (h.slot_iff e i).mp hslot
    rw [hentry', Option.map_some, Option.some.injEq] at hentry
    exact ⟨i, hentry ▸ hentry'⟩
  · rintro ⟨i, hentry⟩
    have hslot := (h.slot_iff e i).mpr ⟨box, hentry⟩
    rw [boxOf, hslot, Option.bind_some, hentry, Option.map_some]

theorem isSome_boxOf (h : s.Indexed) (e : Handle) :
    (s.boxOf e).isSome = (s.slots[e]?).isSome := by
  cases hslot : s.slots[e]? with
  | none =>
      rw [boxOf, hslot, Option.bind_none]
      rfl
  | some i =>
      obtain ⟨box, hentry⟩ := (h.slot_iff e i).mp hslot
      rw [boxOf, hslot, Option.bind_some, hentry]
      rfl

theorem unique (h : s.Indexed) {e : Handle} {i j : Nat} {box box' : Box}
    (hi : s.entries[i]? = some (e, box)) (hj : s.entries[j]? = some (e, box')) : i = j :=
  Option.some.inj (((h.slot_iff e i).mpr ⟨box, hi⟩).symm.trans ((h.slot_iff e j).mpr ⟨box', hj⟩))

theorem slot_lt (h : s.Indexed) {e : Handle} {slot : Nat} (hslot : s.slots[e]? = some slot) :
    slot < s.entries.size := by
  obtain ⟨old, hold⟩ := (h.slot_iff e slot).mp hslot
  exact (Array.getElem?_eq_some_iff.mp hold).1

private theorem boxOf_congr (h : s.Indexed) (h' : s'.Indexed) {e : Handle} {other : Handle}
    {new : Option Box}
    (hsame : other ≠ e → ∀ box, s'.Has other box ↔ s.Has other box)
    (hnew : ∀ box, s'.Has e box ↔ new = some box) :
    s'.boxOf other = if other = e then new else s.boxOf other := by
  apply Option.ext
  intro box
  rw [h'.boxOf_eq_some]
  split_ifs with heq
  · rw [heq, hnew]
  · rw [hsame heq, h.boxOf_eq_some]

private theorem replace (h : s.Indexed) {e : Handle} {slot : Nat} (hslot : s.slots[e]? = some slot)
    (box : Box) :
    (s.update e box).Indexed ∧
      ∀ other, (s.update e box).boxOf other = if other = e then some box else s.boxOf other := by
  obtain ⟨old, hold⟩ := (h.slot_iff e slot).mp hslot
  have hlt := h.slot_lt hslot
  have hentry (i : Nat) : (s.update e box).entries[i]? =
      if i = slot then some (e, box) else s.entries[i]? := by
    simp only [update, hslot, Array.getElem?_modify, eq_comm (a := slot)]
    split_ifs with hi
    · rw [hi, hold, Option.map_some]
    · rfl
  have hslots : (s.update e box).slots = s.slots := by simp only [update, hslot]
  have hindexed : (s.update e box).Indexed := by
    constructor
    intro other i
    rw [hslots, hentry, h.slot_iff]
    split_ifs with hi
    · rw [hi, hold]
      simp
    · rfl
  refine ⟨hindexed, fun other => boxOf_congr h hindexed ?_ ?_⟩
  · intro hne box'
    apply exists_congr
    intro i
    rw [hentry]
    split_ifs with hi
    · rw [hi, hold]
      simp [Ne.symm hne]
    · rfl
  · intro box'
    constructor
    · rintro ⟨i, hi⟩
      rw [hentry] at hi
      split_ifs at hi with heq
      · simpa using hi
      · exact absurd (h.unique hi hold) heq
    · intro heq
      exact ⟨slot, by rw [hentry, if_pos rfl, Option.some.inj heq]⟩

private theorem add (h : s.Indexed) {e : Handle} (hslot : s.slots[e]? = none) (box : Box) :
    (s.update e box).Indexed ∧
      ∀ other, (s.update e box).boxOf other = if other = e then some box else s.boxOf other := by
  have habsent (i : Nat) (old : Box) : s.entries[i]? ≠ some (e, old) := fun hentry => by
    cases hslot.symm.trans ((h.slot_iff e i).mpr ⟨old, hentry⟩)
  have hentry (i : Nat) : (s.update e box).entries[i]? =
      if i = s.entries.size then some (e, box) else s.entries[i]? := by
    simp only [update, hslot, Array.getElem?_push]
  have hend : s.entries[s.entries.size]? = none := Array.getElem?_eq_none le_rfl
  have hslots (other : Handle) : (s.update e box).slots[other]? =
      if other = e then some s.entries.size else s.slots[other]? := by
    simp only [update, hslot, record_insert]
  have hindexed : (s.update e box).Indexed := by
    constructor
    intro other i
    rw [hslots, hentry]
    split_ifs with he hi hi
    · simp [he, hi]
    · refine iff_of_false (fun heq => hi (Option.some.inj heq).symm) ?_
      rintro ⟨old, hold⟩
      exact habsent i old (he ▸ hold)
    · rw [h.slot_iff, hi, hend]
      simp [Ne.symm he]
    · exact h.slot_iff other i
  refine ⟨hindexed, fun other => boxOf_congr h hindexed ?_ ?_⟩
  · intro hne box'
    apply exists_congr
    intro i
    rw [hentry]
    split_ifs with hi
    · rw [hi, hend]
      simp [Ne.symm hne]
    · rfl
  · intro box'
    constructor
    · rintro ⟨i, hi⟩
      rw [hentry] at hi
      split_ifs at hi with heq
      · simpa using hi
      · exact absurd hi (habsent i box')
    · intro heq
      exact ⟨s.entries.size, by rw [hentry, if_pos rfl, Option.some.inj heq]⟩

theorem update (h : s.Indexed) (e : Handle) (box : Box) :
    (s.update e box).Indexed ∧
      ∀ other, (s.update e box).boxOf other = if other = e then some box else s.boxOf other := by
  cases hslot : s.slots[e]? with
  | none => exact h.add hslot box
  | some slot => exact h.replace hslot box

section Remove

variable {e moved : Handle} {slot : Nat} {box : Box}

/-- The last entry is another one unless it is the removed one. -/
theorem moved_ne (h : s.Indexed) (hslot : s.slots[e]? = some slot)
    (hlast : s.entries[s.entries.size - 1]? = some (moved, box))
    (hgap : slot < s.entries.size - 1) : moved ≠ e := by
  rintro rfl
  obtain ⟨old, hold⟩ := (h.slot_iff moved slot).mp hslot
  exact absurd (h.unique hold hlast) (by omega)

theorem entry_remove (h : s.Indexed) (hslot : s.slots[e]? = some slot)
    (hlast : s.entries[s.entries.size - 1]? = some (moved, box)) (i : Nat) :
    (s.remove e).entries[i]? =
      if i < s.entries.size - 1 then (if i = slot then some (moved, box) else s.entries[i]?)
      else none := by
  simp only [LinearScan.remove, hslot, getElem?_swapEraseAt _ _ (h.slot_lt hslot), hlast]

theorem slot_remove (h : s.Indexed) (hslot : s.slots[e]? = some slot)
    (hlast : s.entries[s.entries.size - 1]? = some (moved, box)) (other : Handle) :
    (s.remove e).slots[other]? =
      if slot < s.entries.size - 1 ∧ other = moved then some slot
      else if other = e then none else s.slots[other]? := by
  simp only [LinearScan.remove, hslot, getElem?_swapEraseAt _ _ (h.slot_lt hslot), hlast, if_true]
  by_cases hgap : slot < s.entries.size - 1
  · simp only [hgap, if_true, record_insert, record_erase, true_and]
  · simp only [hgap, record_erase, false_and, if_false]

/-- Moving the last entry into a gap keeps the positions. The moved entity, the removed
one and the others are told apart. -/
theorem indexed_remove (h : s.Indexed) (hslot : s.slots[e]? = some slot)
    (hlast : s.entries[s.entries.size - 1]? = some (moved, box)) : (s.remove e).Indexed := by
  obtain ⟨old, hold⟩ := (h.slot_iff e slot).mp hslot
  have hlt := h.slot_lt hslot
  constructor
  intro other i
  rw [h.slot_remove hslot hlast, h.entry_remove hslot hlast]
  by_cases hgap : slot < s.entries.size - 1 ∧ other = moved
  · obtain ⟨hgap, rfl⟩ := hgap
    rw [if_pos ⟨hgap, rfl⟩]
    constructor
    · intro heq
      obtain rfl := Option.some.inj heq
      exact ⟨box, by rw [if_pos hgap, if_pos rfl]⟩
    · rintro ⟨box', hbox'⟩
      split_ifs at hbox' with hi heq
      · rw [heq]
      · exact absurd (h.unique hbox' hlast) (by omega)
  · rw [if_neg hgap]
    by_cases he : other = e
    · subst he
      rw [if_pos rfl]
      refine iff_of_false (by simp) ?_
      rintro ⟨box', hbox'⟩
      split_ifs at hbox' with hi heq
      · rw [Option.some.injEq, Prod.mk.injEq] at hbox'
        exact h.moved_ne hslot hlast (heq ▸ hi) hbox'.1
      · exact heq (h.unique hbox' hold)
    · rw [if_neg he, h.slot_iff]
      apply exists_congr
      intro box'
      split_ifs with hi heq
      · subst heq
        rw [hold]
        refine iff_of_false ?_ ?_
        · intro hsome
          exact he (congrArg Prod.fst (Option.some.inj hsome)).symm
        · intro hsome
          exact hgap ⟨hi, (congrArg Prod.fst (Option.some.inj hsome)).symm⟩
      · rfl
      · refine iff_of_false ?_ (by simp)
        intro hsome
        have hsize := (Array.getElem?_eq_some_iff.mp hsome).1
        obtain rfl : i = s.entries.size - 1 := by omega
        have hother : moved = other := congrArg Prod.fst (Option.some.inj (hlast.symm.trans hsome))
        have hslotlast : slot = s.entries.size - 1 := by
          by_contra hne
          exact hgap ⟨by omega, hother.symm⟩
        rw [← hslotlast, hold] at hsome
        exact he (congrArg Prod.fst (Option.some.inj hsome)).symm

theorem has_remove (h : s.Indexed) (hslot : s.slots[e]? = some slot)
    (hlast : s.entries[s.entries.size - 1]? = some (moved, box)) {other : Handle} (hne : other ≠ e)
    (box' : Box) : (s.remove e).Has other box' ↔ s.Has other box' := by
  obtain ⟨old, hold⟩ := (h.slot_iff e slot).mp hslot
  have hlt := h.slot_lt hslot
  constructor
  · rintro ⟨i, hi⟩
    rw [h.entry_remove hslot hlast] at hi
    split_ifs at hi with hlow heq
    · exact ⟨s.entries.size - 1, hlast.trans hi⟩
    · exact ⟨i, hi⟩
  · rintro ⟨i, hi⟩
    have hsize := (Array.getElem?_eq_some_iff.mp hi).1
    have hne' : i ≠ slot := by
      rintro rfl
      exact hne (congrArg Prod.fst (Option.some.inj (hi.symm.trans hold)))
    by_cases hlow : i < s.entries.size - 1
    · exact ⟨i, by rw [h.entry_remove hslot hlast, if_pos hlow, if_neg hne', hi]⟩
    · obtain rfl : i = s.entries.size - 1 := by omega
      exact ⟨slot, by rw [h.entry_remove hslot hlast, if_pos (by omega), if_pos rfl, ← hlast, hi]⟩

theorem not_has_remove (h : s.Indexed) (hslot : s.slots[e]? = some slot)
    (hlast : s.entries[s.entries.size - 1]? = some (moved, box)) (box' : Box) :
    ¬ (s.remove e).Has e box' := by
  obtain ⟨old, hold⟩ := (h.slot_iff e slot).mp hslot
  rintro ⟨i, hi⟩
  rw [h.entry_remove hslot hlast] at hi
  split_ifs at hi with hlow heq
  · exact h.moved_ne hslot hlast (heq ▸ hlow) (congrArg Prod.fst (Option.some.inj hi))
  · exact heq (h.unique hi hold)

end Remove

theorem remove (h : s.Indexed) (e : Handle) :
    (s.remove e).Indexed ∧
      ∀ other, (s.remove e).boxOf other = if other = e then none else s.boxOf other := by
  cases hslot : s.slots[e]? with
  | none =>
      have hsame : s.remove e = s := by simp only [LinearScan.remove, hslot]
      rw [hsame]
      refine ⟨h, ?_⟩
      intro other
      split_ifs with heq
      · rw [boxOf, heq, hslot, Option.bind_none]
      · rfl
  | some slot =>
      have hlt := h.slot_lt hslot
      obtain ⟨⟨moved, box⟩, hlast⟩ : ∃ entry, s.entries[s.entries.size - 1]? = some entry :=
        ⟨_, Array.getElem?_eq_getElem (Nat.sub_one_lt_of_lt hlt)⟩
      have hindexed := h.indexed_remove hslot hlast
      refine ⟨hindexed, fun other => boxOf_congr h hindexed ?_ ?_⟩
      · intro hne box'
        exact h.has_remove hslot hlast hne box'
      · intro box'
        exact iff_of_false (h.not_has_remove hslot hlast box') (by simp)

end Indexed

theorem indexed_empty (deterministic : Bool) : (empty deterministic).Indexed := by
  constructor
  intro e i
  have hslot : (empty deterministic).slots[e]? = none := Std.ExtTreeMap.getElem?_empty
  have hentry : (empty deterministic).entries[i]? = none := rfl
  simp [hslot, hentry]

theorem deterministic_apply (s : LinearScan) (change : Change) :
    (s.apply change).deterministic = s.deterministic := by
  cases change with
  | update e position bounds =>
      simp only [apply, update]
      split <;> rfl
  | remove e =>
      simp only [apply, remove]
      split <;> rfl
  | clear => rfl

theorem indexed_run (h : s.Indexed) (changes : List Change) :
    (SpatialIndex.run s changes).Indexed ∧
      (SpatialIndex.run s changes).deterministic = s.deterministic ∧
      (SpatialIndex.run s changes).boxOf = changes.foldl Change.track s.boxOf := by
  induction changes generalizing s with
  | nil => exact ⟨h, rfl, rfl⟩
  | cons change changes ih =>
      have hstep : (s.apply change).Indexed ∧
          ∀ e, (s.apply change).boxOf e = change.track s.boxOf e := by
        cases change with
        | update e position bounds => exact h.update e (extent position bounds)
        | remove e => exact h.remove e
        | clear => exact ⟨indexed_empty s.deterministic, fun e => rfl⟩
      obtain ⟨hindexed, hbox⟩ := hstep
      obtain ⟨hindexed', hflag', hbox'⟩ := ih hindexed
      refine ⟨hindexed', hflag'.trans (deterministic_apply s change), hbox'.trans ?_⟩
      rw [List.foldl_cons, funext hbox]

/-- The matches of a region in the order of the row. -/
def answer (s : LinearScan) (region : Region) : List Handle :=
  (s.entries.toList.filter fun entry => region.meets entry.2).map Prod.fst

theorem handsOver_collect (s : LinearScan) (region : Region) :
    HandsOver (fun _ _ out => s.collect region out) (s.answer region) := by
  intro σ _ out
  unfold collect answer
  beta_reduce
  rw [← Array.foldlM_toList]
  induction s.entries.toList generalizing out with
  | nil => rfl
  | cons entry entries ih =>
      obtain ⟨e, b⟩ := entry
      rw [List.foldlM_cons, List.filter_cons]
      dsimp only
      cases region.meets b with
      | false => exact ih out
      | true =>
          rw [if_pos rfl, if_pos rfl, List.map_cons, List.foldlM_cons]
          exact congrArg (_ >>= ·) (funext fun out => ih out)

theorem mem_answer (h : s.Indexed) {region : Region} {e : Handle} :
    e ∈ s.answer region ↔ ∃ box, s.boxOf e = some box ∧ region.meets box = true := by
  simp only [answer, List.mem_map, List.mem_filter, Array.mem_toList_iff, Array.mem_iff_getElem?,
    h.boxOf_eq_some, Has]
  constructor
  · rintro ⟨⟨e', box⟩, ⟨⟨i, hentry⟩, hmeets⟩, rfl⟩
    exact ⟨box, ⟨i, hentry⟩, hmeets⟩
  · rintro ⟨box, ⟨i, hentry⟩, hmeets⟩
    exact ⟨(e, box), ⟨⟨i, hentry⟩, hmeets⟩, rfl⟩

def handles (s : LinearScan) : List Handle := s.entries.toList.map Prod.fst

theorem nodup_handles (h : s.Indexed) : s.handles.Nodup := by
  unfold handles
  refine List.nodup_iff_getElem?_ne_getElem?.mpr fun i j hij hj heq => ?_
  rw [List.length_map] at hj
  rw [List.getElem?_map, List.getElem?_map, Array.getElem?_toList, Array.getElem?_toList] at heq
  rw [Array.length_toList] at hj
  obtain ⟨⟨e, box⟩, hentry⟩ : ∃ entry, s.entries[j]? = some entry :=
    ⟨_, Array.getElem?_eq_getElem hj⟩
  rw [hentry, Option.map_some, Option.map_eq_some_iff] at heq
  obtain ⟨⟨e', box'⟩, hi, hkey⟩ := heq
  obtain rfl : e' = e := hkey
  have heq' := h.unique hi hentry
  omega

/-- The entities in the row are those with a position. -/
theorem mem_handles (h : s.Indexed) {e : Handle} :
    e ∈ s.handles ↔ (s.slots[e]?).isSome = true := by
  simp only [handles, List.mem_map, Array.mem_toList_iff, Array.mem_iff_getElem?,
    Option.isSome_iff_exists, h.slot_iff]
  constructor
  · rintro ⟨⟨e', box⟩, ⟨i, hentry⟩, rfl⟩
    exact ⟨i, box, hentry⟩
  · rintro ⟨i, box, hentry⟩
    exact ⟨(e, box), ⟨i, hentry⟩, rfl⟩

theorem nodup_answer (h : s.Indexed) (region : Region) : (s.answer region).Nodup :=
  (nodup_handles h).sublist (List.filter_sublist.map Prod.fst)

theorem query_perm (s : LinearScan) (region : Region) :
    (SpatialIndex.query s region).Perm (s.answer region) :=
  query_perm_of_handsOver (ι := LinearScan) Handle.sort_perm (handsOver_collect s region)

/-- After any changes the answer to a query is the tracked entities whose box meets
the region, each once. -/
theorem answer_run (deterministic : Bool) (changes : List Change) (region : Region) :
    let s := SpatialIndex.run (empty deterministic) changes
    (s.answer region).Nodup ∧
    ∀ e, e ∈ s.answer region ↔
      ∃ box, trackedBoxes changes e = some box ∧ region.meets box = true := by
  intro s
  obtain ⟨hindexed, -, hbox⟩ := indexed_run (indexed_empty deterministic) changes
  refine ⟨nodup_answer hindexed region, ?_⟩
  intro e
  rw [mem_answer hindexed, hbox]
  exact Iff.rfl

end LinearScan

end Broadphase
