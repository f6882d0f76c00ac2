import Mathlib
import Broadphase.Proofs.Tree.Invariant
import Broadphase.Proofs.Tree.Reachability

/-!
The node array as a tree. The blocks reachable from the root and the retired ones
partition the pool's range, and following links from the root visits every
reachable node once, with parents, depths and bounds as the division set them. The
counters count what is reachable.
-/

namespace Broadphase

namespace Tree

variable {layout : Layout} {t : Tree layout}

/-- A block that a reachable node has for children. -/
def ReachableBlock (t : Tree layout) (block : Nat) : Prop :=
  ∃ (slot : Nat) (n : Node), t.Reachable slot ∧ t.nodes[slot]? = some n ∧ n.children = some block

/-- The blocks in use, in ascending order. -/
def liveBlocks (t : Tree layout) : List Nat :=
  (List.range t.pool.highWater).filter fun block => block ∉ t.pool.retired

theorem mem_liveBlocks {block : Nat} : block ∈ t.liveBlocks ↔ t.pool.InUse block := by
  simp [liveBlocks, BlockPool.InUse]

theorem reachableBlock_iff (harena : t.Arena) (block : Nat) :
    t.ReachableBlock block ↔ t.pool.InUse block := by
  constructor
  · rintro ⟨slot, n, hreachable, hn, hblock⟩
    have hlive := (reachable_iff_live harena slot).mp hreachable
    exact (harena.link slot n.bare block hlive (frame_of_node hn) hblock).1
  · intro huse
    obtain ⟨slot, f, hlive, hf, hblock⟩ := harena.owner block huse
    obtain ⟨n, hn, rfl⟩ := exists_node_of_frame hf
    exact ⟨slot, n, (reachable_iff_live harena slot).mpr hlive, hn, hblock⟩

/-- Blocks in use and retired blocks make up the range of the pool, each once. -/
theorem liveBlocks_append_retired_perm (harena : t.Arena) :
    (t.liveBlocks ++ t.pool.retired.toList).Perm (List.range t.pool.highWater) := by
  have hnodup : (t.liveBlocks ++ t.pool.retired.toList).Nodup := by
    refine List.nodup_append.mpr
      ⟨List.nodup_range.filter _, harena.pool_sound.nodup, ?_⟩
    intro a ha b hb
    rintro rfl
    exact (mem_liveBlocks.mp ha).2 (Array.mem_toList_iff.mp hb)
  refine (List.perm_ext_iff_of_nodup hnodup List.nodup_range).mpr ?_
  intro block
  rw [List.mem_append, mem_liveBlocks, List.mem_range, Array.mem_toList_iff]
  constructor
  · rintro (huse | hretired)
    · exact huse.1
    · exact harena.pool_sound.in_range block hretired
  · intro hlt
    by_cases hretired : block ∈ t.pool.retired
    · exact Or.inr hretired
    · exact Or.inl ⟨hlt, hretired⟩

theorem length_liveBlocks (harena : t.Arena) : t.liveBlocks.length = t.pool.live := by
  have hlength := (liveBlocks_append_retired_perm harena).length_eq
  have hcount := harena.pool_sound.count
  rw [List.length_append, List.length_range] at hlength
  have hretired : t.pool.retired.toList.length = t.pool.retired.size := Array.length_toList
  omega

theorem length_reachableSlots (harena : t.Arena) :
    t.reachableSlots.length = 1 + t.pool.live * layout.arity := by
  have hnodup : (rootSlot :: t.liveBlocks.flatMap layout.blockSlots).Nodup := by
    refine List.nodup_cons.mpr ⟨?_, List.nodup_flatMap.mpr
      ⟨fun block _ => Layout.nodup_blockSlots block, ?_⟩⟩
    · intro hmem
      obtain ⟨block, -, hslot⟩ := List.mem_flatMap.mp hmem
      obtain ⟨child, -, heq⟩ := Layout.mem_blockSlots.mp hslot
      exact Layout.firstSlot_add_ne_zero block child heq.symm
    · refine (List.nodup_range.filter _).imp fun {block block'} hne => ?_
      refine List.disjoint_left.mpr fun slot hslot hslot' => hne ?_
      obtain ⟨child, hchild, rfl⟩ := Layout.mem_blockSlots.mp hslot
      obtain ⟨child', hchild', heq⟩ := Layout.mem_blockSlots.mp hslot'
      exact (Layout.firstSlot_add_inj hchild hchild' heq).1
  have hperm : t.reachableSlots.Perm (rootSlot :: t.liveBlocks.flatMap layout.blockSlots) := by
    refine (List.perm_ext_iff_of_nodup (nodup_reachableSlots harena) hnodup).mpr ?_
    intro slot
    rw [mem_reachableSlots harena, reachable_iff_live harena, List.mem_cons, List.mem_flatMap]
    simp only [mem_liveBlocks, Layout.mem_blockSlots, Live]
    constructor
    · rintro (hroot | ⟨block, child, huse, hchild, heq⟩)
      · exact Or.inl hroot
      · exact Or.inr ⟨block, huse, child, hchild, heq⟩
    · rintro (hroot | ⟨block, huse, child, hchild, heq⟩)
      · exact Or.inl hroot
      · exact Or.inr ⟨block, child, huse, hchild, heq⟩
  have hslots : (t.liveBlocks.flatMap layout.blockSlots).length = t.pool.live * layout.arity := by
    rw [List.length_flatMap, ← length_liveBlocks harena]
    simp [Layout.blockSlots]
  rw [hperm.length_eq, List.length_cons, hslots]
  omega

/-- The greatest depth of the nodes in a list of slots. -/
structure IsDeepest (t : Tree layout) (slots : List Nat) (deepest : Nat) : Prop where
  attained : ∃ slot ∈ slots, ∃ n, t.nodes[slot]? = some n ∧ n.depth = deepest
  bound : ∀ slot ∈ slots, ∀ n, t.nodes[slot]? = some n → n.depth ≤ deepest

theorem IsDeepest.singleton {slot : Nat} {n : Node} (hn : t.nodes[slot]? = some n) :
    t.IsDeepest [slot] n.depth := by
  refine ⟨⟨slot, List.mem_singleton.mpr rfl, n, hn, rfl⟩, ?_⟩
  intro i hi m hm
  obtain rfl := List.mem_singleton.mp hi
  obtain rfl : n = m := Option.some.inj (hn.symm.trans hm)
  exact le_rfl

theorem IsDeepest.append {seen slots : List Nat} {sofar below : Nat} (h : t.IsDeepest seen sofar)
    (h' : t.IsDeepest slots below) : t.IsDeepest (seen ++ slots) (max sofar below) := by
  constructor
  · rcases le_total sofar below with hle | hle
    · obtain ⟨i, hi, n, hn, hdepth⟩ := h'.attained
      exact ⟨i, List.mem_append_right _ hi, n, hn, by omega⟩
    · obtain ⟨i, hi, n, hn, hdepth⟩ := h.attained
      exact ⟨i, List.mem_append_left _ hi, n, hn, by omega⟩
  · intro i hi n hn
    rcases List.mem_append.mp hi with hi | hi
    · exact le_max_of_le_left (h.bound i hi n hn)
    · exact le_max_of_le_right (h'.bound i hi n hn)

theorem exists_deepestBelow (harena : t.Arena) {levels slot : Nat} {n : Node}
    (h : t.Allows levels slot n) :
    ∃ deepest, t.deepestBelow levels slot = .ok deepest ∧
      t.IsDeepest (t.walk levels slot) deepest := by
  induction levels generalizing slot n with
  | zero =>
      have hleaf := h.leaf_of_zero harena
      refine ⟨n.depth, ?_, .singleton h.node_eq⟩
      unfold deepestBelow
      simp only [node_eq_ok h.node_eq, hleaf, bind, Except.bind, pure, Except.pure]
  | succ levels ih =>
      cases hblock : n.children with
      | none =>
          rw [walk_leaf h.node_eq hblock]
          refine ⟨n.depth, ?_, .singleton h.node_eq⟩
          unfold deepestBelow
          simp only [node_eq_ok h.node_eq, hblock, bind, Except.bind, pure, Except.pure]
      | some block =>
          -- the search has seen the node and the children before the current one
          have hfold (slots seen : List Nat) (sofar : Nat) (hsofar : t.IsDeepest seen sofar)
              (hslots : ∀ i ∈ slots, i ∈ layout.blockSlots block) :
              ∃ deepest, slots.foldlM
                (fun deepest child => do pure (max deepest (← t.deepestBelow levels child)))
                sofar = .ok deepest ∧
                t.IsDeepest (seen ++ slots.flatMap (t.walk levels)) deepest := by
            induction slots generalizing seen sofar with
            | nil => exact ⟨sofar, rfl, by simpa using hsofar⟩
            | cons i slots ihslots =>
                obtain ⟨child, hchild, rfl⟩ :=
                  Layout.mem_blockSlots.mp (hslots i List.mem_cons_self)
                obtain ⟨m, hallows, -⟩ := h.exists_child harena hblock hchild
                obtain ⟨below, heq, hbelow⟩ := ih hallows
                obtain ⟨deepest, hrest, hdeepest⟩ := ihslots _ _ (hsofar.append hbelow)
                  fun j hj => hslots j (List.mem_cons_of_mem _ hj)
                refine ⟨deepest, ?_, ?_⟩
                · rw [List.foldlM_cons, heq]
                  exact hrest
                · rwa [List.flatMap_cons, ← List.append_assoc]
          obtain ⟨deepest, heq, hdeepest⟩ := hfold (layout.blockSlots block) [slot] n.depth
            (.singleton h.node_eq) fun i hi => hi
          refine ⟨deepest, ?_, ?_⟩
          · unfold deepestBelow
            simp only [node_eq_ok h.node_eq, hblock, bind, Except.bind]
            exact heq
          · rw [walk_divided h.node_eq hblock]
            exact hdeepest

/-- In every state that changes lead to, with pooling or without, the blocks reachable
from the root and the retired ones are distinct and make up the pool's range; the
array and the counter have the sizes that go with it; the walk along all links meets
each reachable node once, every divided node being the only parent of its children,
which are one level deeper and have the bounds of its parts. The counters tell the
number of reachable nodes and their greatest depth. -/
theorem partition_of_run {config : TreeConfig} {t₀ : Tree layout}
    (hcreate : (create layout config).1 = .ok t₀) (changes : List Change) :
    let t := SpatialIndex.run t₀ changes
    (∃ blocks : List Nat, (∀ block, block ∈ blocks ↔ t.ReachableBlock block) ∧
      (blocks ++ t.pool.retired.toList).Perm (List.range t.pool.highWater) ∧
        blocks.length = t.pool.live) ∧
    t.nodes.size = 1 + t.pool.highWater * layout.arity ∧
    (t.reachableSlots.Nodup ∧ ∀ slot, slot ∈ t.reachableSlots ↔ t.Reachable slot) ∧
    (∃ root : Node, t.nodes[rootSlot]? = some root ∧ root.parent = none ∧ root.depth = 0 ∧
      root.bounds = layout.project config.world) ∧
    (∀ (slot block : Nat) (n : Node), t.Reachable slot → t.nodes[slot]? = some n →
      n.children = some block → ∀ child < layout.arity, ∃ m : Node,
        t.nodes[layout.firstSlot block + child]? = some m ∧ m.parent = some slot ∧
          m.depth = n.depth + 1 ∧ m.depth ≤ config.maxDepth ∧
          m.bounds = layout.childBounds n.bounds n.bounds.center child) ∧
    t.tryStats = .ok (SpatialIndex.stats t) ∧
    (SpatialIndex.stats t).liveNodes = t.reachableSlots.length ∧
    t.IsDeepest t.reachableSlots (SpatialIndex.stats t).deepestLevel := by
  intro t
  obtain ⟨hwell, hconfig, -⟩ := wellFormed_of_create hcreate changes
  have harena : t.Arena := hwell.arena
  obtain ⟨n, hallows⟩ := Allows.root harena
  obtain ⟨deepest, heq, hdeepest⟩ := exists_deepestBelow harena hallows
  have hstats : t.tryStats = .ok ⟨t.locations.size, 1 + t.pool.live * layout.arity,
      t.pool.pooled * layout.arity, deepest⟩ := by
    unfold tryStats
    rw [heq]
    rfl
  have hplain : SpatialIndex.stats t = ⟨t.locations.size, 1 + t.pool.live * layout.arity,
      t.pool.pooled * layout.arity, deepest⟩ := by
    change t.tryStats.toOption.getD default = _
    rw [hstats]
    rfl
  refine ⟨⟨t.liveBlocks, ?_, liveBlocks_append_retired_perm harena, length_liveBlocks harena⟩,
    harena.size_eq, ⟨nodup_reachableSlots harena, mem_reachableSlots harena⟩, ?_, ?_, ?_, ?_, ?_⟩
  · intro block
    rw [reachableBlock_iff harena, mem_liveBlocks]
  · obtain ⟨f, hf, hbounds, hdepth, hparent⟩ := harena.root
    obtain ⟨root, hroot, rfl⟩ := exists_node_of_frame hf
    exact ⟨root, hroot, hparent, hdepth, by rw [← hconfig]; exact hbounds⟩
  · intro slot block n hreachable hn hblock child hchild
    have hlive := (reachable_iff_live harena slot).mp hreachable
    obtain ⟨huse, hlink⟩ := harena.link slot n.bare block hlive (frame_of_node hn) hblock
    obtain ⟨f, hf, hparent, hdepth, hbounds⟩ := hlink child hchild
    obtain ⟨m, hm, rfl⟩ := exists_node_of_frame hf
    have hle := harena.depth_le _ m.bare (live_child huse hchild) hf
    rw [hconfig] at hle
    exact ⟨m, hm, hparent, hdepth, hle, hbounds⟩
  · rw [hplain, hstats]
  · rw [hplain, length_reachableSlots harena]
  · rw [hplain]
    exact hdeepest

/-- Two entities divide the root of an octree, and the counter tells its nine nodes. -/
theorem partition_of_run_divided :
    (SpatialIndex.stats (SpatialIndex.run (empty { maxOccupants := 1 } : Octree)
      [.update ⟨1, 0⟩ (.splat (-10)) none, .update ⟨2, 0⟩ (.splat 10) none])).liveNodes = 9 := by
  have hcreate : (create .oct { maxOccupants := 1 }).1 = .ok (empty { maxOccupants := 1 }) :=
    create_eq_ok (by decide +kernel)
  obtain ⟨-, -, -, -, -, -, hlive, -⟩ := partition_of_run hcreate
    [.update ⟨1, 0⟩ (.splat (-10)) none, .update ⟨2, 0⟩ (.splat 10) none]
  exact hlive.trans (by decide +kernel)

end Tree

end Broadphase
