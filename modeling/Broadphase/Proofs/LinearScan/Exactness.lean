import Mathlib
import Broadphase.Proofs.Tracking

/-!
The scan as a map from entities to boxes. The row and the recorded positions always describe one
map, and it is the one that the history tells without a row: each entity that was updated last,
with the box of that update. Taking an entity out fills its place with the last entry and sets
one other position, or none if the entity was the last or the only one. An error there would
show in a later change, so the row is compared with the history after any changes.
-/

namespace Broadphase

open SpatialIndex

namespace LinearScan

variable {s : LinearScan} {changes : List Change}

/-- A query names the entities whose latest box meets the region, each once, in all its forms. -/
structure Exact (s : LinearScan) (changes : List Change) (region : Region) : Prop where
  mem_iff : ∀ e, e ∈ query s region ↔
    ∃ box, LatestBox changes e box ∧ region.meets box = true
  nodup : (query s region).Nodup
  forms : FormsAgree s region

/-- The row and its positions are one map from the tracked entities to their latest boxes. -/
structure MapsLatest (s : LinearScan) (changes : List Change) : Prop where
  slot_iff : ∀ (e : Handle) slot, s.slots[e]? = some slot ↔ ∃ box, s.entries[slot]? = some (e, box)
  /-- No two entries are of one entity. -/
  nodup : (s.entries.toList.map Prod.fst).Nodup
  entry_iff : ∀ e box, (∃ slot : Nat, s.entries[slot]? = some (e, box)) ↔ LatestBox changes e box
  contains_iff : ∀ e, contains s e = true ↔ ∃ box, LatestBox changes e box
  exact : ∀ region, s.Exact changes region

/-- A row whose boxes are those of the history answers by the history. -/
theorem Indexed.exact (h : s.Indexed) (hbox : s.boxOf = trackedBoxes changes) (region : Region) :
    s.Exact changes region := by
  have hhands : HandsOver (fun _ _ out => SpatialIndex.collect s region out) (s.answer region) :=
    handsOver_collect s region
  have hperm := query_perm s region
  refine ⟨?_, hperm.nodup_iff.mpr (nodup_answer h region), formsAgree_of_handsOver hhands⟩
  intro e
  rw [hperm.mem_iff, mem_answer h, hbox]
  simp only [trackedBoxes_eq_some]

/-- After any changes to a new scan, an entity has a position exactly if it is in the row there,
no entity is in the row twice, and each entry has the box of its entity's latest update. So a
query names exactly the tracked entities whose latest box meets its region, each once. -/
theorem maps_latest_of_run (deterministic : Bool) (changes : List Change) :
    (run (empty deterministic) changes).MapsLatest changes := by
  obtain ⟨hindexed, -, hbox⟩ := indexed_run (indexed_empty deterministic) changes
  have htracks := TracksHistory.scan deterministic changes
  refine ⟨hindexed.slot_iff, nodup_handles hindexed, ?_, ?_, hindexed.exact hbox⟩
  · intro e box
    rw [← trackedBoxes_eq_some]
    change Has _ e box ↔ _
    rw [← hindexed.boxOf_eq_some, hbox]
    exact Iff.rfl
  · intro e
    rw [htracks.contains_iff, lastUpdated_iff]

/-- The last entry, the only one and none are taken out. The entry that was moved to the front
is updated there. -/
example :
    let s := run (empty true)
      [.update ⟨1, 0⟩ .zero none, .remove ⟨1, 0⟩, .update ⟨1, 0⟩ .zero none,
        .update ⟨2, 0⟩ .zero none, .update ⟨3, 0⟩ .zero none, .remove ⟨1, 0⟩, .remove ⟨1, 0⟩,
        .remove ⟨2, 0⟩, .update ⟨3, 0⟩ (.splat 50) none]
    s.entries = #[(⟨3, 0⟩, .ofPoint (.splat 50))] ∧
      query s (.point (.splat 50)) = [⟨3, 0⟩] ∧ query s (.point .zero) = [] := by
  decide +kernel

end LinearScan

end Broadphase
