import Mathlib
import Broadphase.Proofs.Tree.Invariant
import Broadphase.Proofs.Tree.Reachability

/-!
Where the entities of a tree are after any history. An entity is tracked by the
history exactly if a node reachable from the root holds it, no list holds it twice
and no two lists hold it, and the node is the one where its box belongs.
-/

namespace Broadphase

namespace Layout

variable {layout : Layout}

theorem sharedChild?_eq_none {center : Vec3} {b : Box} :
    layout.sharedChild? center b = none ↔
      layout.childIndex center b.min ≠ layout.childIndex center b.max := by
  simp only [sharedChild?, ite_eq_right_iff, reduceCtorEq, imp_false]

end Layout

namespace Tree

variable {layout : Layout} {t : Tree layout}

namespace WellFormed

/-- A tracked entity is in one list only, once, in a reachable node. -/
theorem stored_once (h : t.WellFormed) {e : Handle} {slot : Nat} {box : Box}
    (hrecord : t.locations[e]? = some ⟨slot, box⟩) :
    t.Reachable slot ∧ ∃ n, t.nodes[slot]? = some n ∧ n.occupants.count e = 1 ∧
      ∀ other m, t.nodes[other]? = some m → other ≠ slot → e ∉ m.occupants := by
  have hlive := h.placed.live e slot box hrecord
  obtain ⟨n, hn⟩ := h.arena.exists_node hlive
  refine ⟨(reachable_iff_live h.arena slot).mpr hlive, n, hn, ?_, ?_⟩
  · have hmem := (h.placed.stored_iff e slot).mpr ⟨box, hrecord⟩
    have hnodup := h.placed.nodup slot
    rw [occupantsAt_of_node hn] at hmem hnodup
    rw [← Array.count_toList]
    exact List.count_eq_one_of_mem hnodup (Array.mem_toList_iff.mpr hmem)
  · intro other m hm hne hmem
    obtain ⟨box', hother⟩ :=
      (h.placed.stored_iff e other).mp ((occupantsAt_of_node hm).symm ▸ hmem)
    rw [hrecord, Option.some.injEq, Location.mk.injEq] at hother
    exact hne hother.1.symm

theorem not_stored (h : t.WellFormed) {e : Handle} (hnone : t.locations[e]? = none) {slot : Nat}
    {n : Node} (hn : t.nodes[slot]? = some n) : e ∉ n.occupants := by
  intro hmem
  obtain ⟨box, hrecord⟩ := (h.placed.stored_iff e slot).mp ((occupantsAt_of_node hn).symm ▸ hmem)
  cases hnone.symm.trans hrecord

theorem retired_empty (h : t.WellFormed) {block : Nat} (hretired : block ∈ t.pool.retired)
    {slot : Nat} (hslot : slot ∈ layout.blockSlots block) {n : Node}
    (hn : t.nodes[slot]? = some n) : n.occupants = #[] := by
  obtain ⟨child, hchild, rfl⟩ := Layout.mem_blockSlots.mp hslot
  rw [← occupantsAt_of_node hn]
  apply h.placed.occupantsAt_eq_empty
  intro hlive
  exact ((live_child_iff hchild).mp hlive).2 hretired

end WellFormed

/-- In every state that changes lead to, a tracked entity occurs once in the lists of
all nodes, at the reachable node that its record names; that node is the root if the
world does not contain the box, and else one that contains it and whose children, if
any, are different ones for its two corners. No other handle occurs anywhere, and the
lists of retired slots are empty. -/
theorem placement_of_run {config : TreeConfig} {t₀ : Tree layout}
    (hcreate : (create layout config).1 = .ok t₀) (changes : List Change) :
    let t := SpatialIndex.run t₀ changes
    (∀ e box, trackedBoxes changes e = some box → ∃ (slot : Nat) (n : Node),
      t.locations[e]? = some ⟨slot, box⟩ ∧ t.Reachable slot ∧ t.nodes[slot]? = some n ∧
        n.occupants.count e = 1 ∧
        (∀ (other : Nat) (m : Node), t.nodes[other]? = some m → other ≠ slot → e ∉ m.occupants) ∧
        ((slot = rootSlot ∧ n.bounds.contains (layout.project box) = false) ∨
          (n.bounds.contains (layout.project box) = true ∧
            (n.children = none ∨ layout.childIndex n.bounds.center (layout.project box).min ≠
              layout.childIndex n.bounds.center (layout.project box).max)))) ∧
    (∀ e, trackedBoxes changes e = none → t.locations[e]? = none ∧
      ∀ (slot : Nat) (n : Node), t.nodes[slot]? = some n → e ∉ n.occupants) ∧
    ∀ block ∈ t.pool.retired, ∀ slot ∈ layout.blockSlots block, ∀ n : Node,
      t.nodes[slot]? = some n → n.occupants = #[] := by
  intro t
  obtain ⟨hwell, -, hbox⟩ := wellFormed_of_create hcreate changes
  refine ⟨?_, ?_, ?_⟩
  · intro e box htracked
    rw [← hbox] at htracked
    obtain ⟨slot, hrecord⟩ := exists_record htracked
    obtain ⟨hreachable, n, hn, hcount, hothers⟩ := hwell.stored_once hrecord
    have hfits := hwell.placed.fits e slot box n.bare hrecord (frame_of_node hn)
    rw [Fits, Layout.sharedChild?_eq_none] at hfits
    exact ⟨slot, n, hrecord, hreachable, hn, hcount, hothers, hfits⟩
  · intro e huntracked
    rw [← hbox, boxOf_eq_none] at huntracked
    exact ⟨huntracked, fun slot n hn => hwell.not_stored huntracked hn⟩
  · intro block hretired slot hslot n hn
    exact hwell.retired_empty hretired hslot hn

/-- In a divided octree a point is stored in a child that contains it, a box across the split
planes and a point outside of the world are stored at the root, and a removed point nowhere. -/
theorem placement_of_run_straddler :
    let changes : List Change := [.update ⟨1, 0⟩ (.splat (-10)) none,
      .update ⟨2, 0⟩ (.splat 10) none, .update ⟨3, 0⟩ .zero (some ⟨.splat (-4), .splat 4⟩),
      .update ⟨4, 0⟩ (.splat 5000) none, .update ⟨5, 0⟩ ⟨10, -10, 10⟩ none, .remove ⟨5, 0⟩]
    let t : Octree := SpatialIndex.run (empty { maxOccupants := 1 }) changes
    let across : Box := ⟨.splat (-4), .splat 4⟩
    (∃ n : Node, t.nodes[1]? = some n ∧ n.occupants.count ⟨1, 0⟩ = 1 ∧
      ∀ (slot : Nat) (m : Node), t.nodes[slot]? = some m → slot ≠ 1 → ⟨1, 0⟩ ∉ m.occupants) ∧
    (∃ root : Node, t.nodes[rootSlot]? = some root ∧ root.occupants.count ⟨3, 0⟩ = 1 ∧
      root.bounds.contains across = true ∧
      Layout.oct.childIndex root.bounds.center across.min ≠
        Layout.oct.childIndex root.bounds.center across.max) ∧
    (∃ root : Node, t.nodes[rootSlot]? = some root ∧ root.occupants.count ⟨4, 0⟩ = 1 ∧
      root.bounds.contains (.ofPoint (.splat 5000)) = false) ∧
    ∀ (slot : Nat) (n : Node), t.nodes[slot]? = some n → ⟨5, 0⟩ ∉ n.occupants := by
  intro changes t across
  have hcreate : (create .oct { maxOccupants := 1 }).1 = .ok (empty { maxOccupants := 1 }) :=
    create_eq_ok (by decide +kernel)
  obtain ⟨hplaced, hgone, -⟩ := placement_of_run hcreate changes
  have hslots : t.locations[(⟨1, 0⟩ : Handle)]? = some ⟨1, .ofPoint (.splat (-10))⟩ ∧
      t.locations[(⟨3, 0⟩ : Handle)]? = some ⟨rootSlot, across⟩ ∧
      t.locations[(⟨4, 0⟩ : Handle)]? = some ⟨rootSlot, .ofPoint (.splat 5000)⟩ := by
    decide +kernel
  have hroot : (t.nodes[rootSlot]?).map (fun n => (n.bounds, n.children)) =
      some (defaultWorld, some 0) := by decide +kernel
  refine ⟨?_, ?_, ?_, (hgone ⟨5, 0⟩ rfl).2⟩
  · obtain ⟨slot, n, hrecord, -, hn, hcount, hothers, -⟩ := hplaced ⟨1, 0⟩ _ rfl
    obtain rfl : slot = 1 :=
      congrArg Location.slot (Option.some.inj (hrecord.symm.trans hslots.1))
    exact ⟨n, hn, hcount, hothers⟩
  · obtain ⟨slot, n, hrecord, -, hn, hcount, -, hfits⟩ := hplaced ⟨3, 0⟩ across rfl
    obtain rfl : slot = rootSlot :=
      congrArg Location.slot (Option.some.inj (hrecord.symm.trans hslots.2.1))
    change t.nodes[rootSlot]? = some n at hn
    rw [hn, Option.map_some, Option.some.injEq, Prod.mk.injEq] at hroot
    refine ⟨n, hn, hcount, ?_⟩
    rcases hfits with ⟨-, hout⟩ | ⟨hin, hleaf | hsplit⟩
    · rw [hroot.1] at hout
      exact absurd hout (by decide +kernel)
    · cases hroot.2.symm.trans hleaf
    · exact ⟨hin, hsplit⟩
  · obtain ⟨slot, n, hrecord, -, hn, hcount, -, hfits⟩ := hplaced ⟨4, 0⟩ _ rfl
    obtain rfl : slot = rootSlot :=
      congrArg Location.slot (Option.some.inj (hrecord.symm.trans hslots.2.2))
    change t.nodes[rootSlot]? = some n at hn
    rw [hn, Option.map_some, Option.some.injEq, Prod.mk.injEq] at hroot
    refine ⟨n, hn, hcount, ?_⟩
    rcases hfits with ⟨-, hout⟩ | ⟨hin, -⟩
    · exact hout
    · rw [hroot.1] at hin
      exact absurd hin (by decide +kernel)

end Tree

end Broadphase
