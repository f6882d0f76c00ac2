import Mathlib
import Broadphase.Proofs.Tree.Contents

/-!
The nodes that links from the root lead to. They are the nodes in use, and the walk
that follows every link meets each of them once: a node has one parent, and depths
grow along links, so two nodes of equal depth have nothing below them in common.
-/

namespace Broadphase

namespace Tree

variable {layout : Layout} {t : Tree layout}

/-- The slots that links lead to from a slot. -/
inductive Under (t : Tree layout) (top : Nat) : Nat → Prop where
  | self : Under t top top
  | child {slot block child : Nat} {n : Node} : Under t top slot → t.nodes[slot]? = some n →
      n.children = some block → child < layout.arity →
      Under t top (layout.firstSlot block + child)

abbrev Reachable (t : Tree layout) : Nat → Prop := t.Under rootSlot

theorem Under.live (harena : t.Arena) {top slot : Nat} (htop : t.Live top)
    (h : t.Under top slot) : t.Live slot := by
  induction h with
  | self => exact htop
  | @child slot block child n _ hn hblock hchild ih =>
      exact live_child (harena.link slot n.bare block ih (frame_of_node hn) hblock).1 hchild

theorem Under.trans {top middle slot : Nat} (h : t.Under top middle) (h' : t.Under middle slot) :
    t.Under top slot := by
  induction h' with
  | self => exact h
  | child _ hn hblock hchild ih => exact .child ih hn hblock hchild

/-- The nodes in use are those that links lead to. -/
theorem reachable_iff_live (harena : t.Arena) (slot : Nat) : t.Reachable slot ↔ t.Live slot := by
  refine ⟨Under.live harena (live_root t), ?_⟩
  intro hlive
  obtain ⟨f, hf⟩ := harena.exists_frame hlive
  -- the parent is one level higher, so the depth decreases on the way up
  induction hdepth : f.depth generalizing slot f with
  | zero =>
      rcases hlive with rfl | ⟨block, child, huse, hchild, rfl⟩
      · exact .self
      · obtain ⟨above, g, g', -, -, -, hg', -, hup, -⟩ := harena.exists_parent huse hchild
        obtain rfl : f = g' := Option.some.inj (hf.symm.trans hg')
        omega
  | succ depth ih =>
      rcases hlive with rfl | ⟨block, child, huse, hchild, rfl⟩
      · exact .self
      · obtain ⟨above, g, g', hlive, hg, hblock, hg', -, hup, -⟩ :=
          harena.exists_parent huse hchild
        obtain rfl : f = g' := Option.some.inj (hf.symm.trans hg')
        obtain ⟨n, hn, rfl⟩ := exists_node_of_frame hg
        exact .child (ih above hlive n.bare hg (by omega)) hn hblock hchild

/-- What holds of the bounds of a node, and of all children of boxes below it of which it
holds, holds of the bounds of all nodes below it. -/
theorem Under.bounds_induction (harena : t.Arena) {motive : Box → Prop} {top slot : Nat}
    {f g : Node} (h : t.Under top slot) (htop : t.Live top) (hf : t.frame top = some f)
    (hmotive : motive f.bounds)
    (hstep : ∀ (i block child : Nat) (n : Node), t.Under top i → t.nodes[i]? = some n →
      n.children = some block → motive n.bounds →
        motive (layout.childBounds n.bounds n.bounds.center child))
    (hg : t.frame slot = some g) : motive g.bounds := by
  induction h generalizing g with
  | self =>
      obtain rfl : f = g := Option.some.inj (hf.symm.trans hg)
      exact hmotive
  | @child slot block child n hunder hn hblock hchild ih =>
      obtain ⟨-, -, hbounds⟩ :=
        harena.child_frame (hunder.live harena htop) (frame_of_node hn) hblock hchild hg
      have hnode : motive n.bare.bounds := ih (frame_of_node hn)
      rw [hbounds]
      exact hstep slot block child n hunder hn hblock hnode

theorem Under.depth_le (harena : t.Arena) {top slot : Nat} {f g : Node} (htop : t.Live top)
    (h : t.Under top slot) (hf : t.frame top = some f) (hg : t.frame slot = some g) :
    f.depth ≤ g.depth := by
  induction h generalizing g with
  | self => exact (congrArg Node.depth (Option.some.inj (hf.symm.trans hg))).le
  | @child slot block child n hunder hn hblock hchild ih =>
      have hle := ih (frame_of_node hn)
      obtain ⟨-, hdepth, -⟩ :=
        harena.child_frame (hunder.live harena htop) (frame_of_node hn) hblock hchild hg
      omega

/-- A node has at most one ancestor of each depth. -/
theorem Under.unique (harena : t.Arena) {top top' slot : Nat} {f f' : Node} (htop : t.Live top)
    (htop' : t.Live top') (hf : t.frame top = some f) (hf' : t.frame top' = some f')
    (hdepth : f.depth = f'.depth) (h : t.Under top slot) (h' : t.Under top' slot) :
    top = top' := by
  induction h with
  | self =>
      cases h' with
      | self => rfl
      | @child slot block child n hunder hn hblock hchild =>
          have hle := hunder.depth_le harena htop' hf' (frame_of_node hn)
          obtain ⟨-, hup, -⟩ :=
            harena.child_frame (hunder.live harena htop') (frame_of_node hn) hblock hchild hf
          omega
  | @child slot block child n hunder hn hblock hchild ih =>
      have hlive := hunder.live harena htop
      obtain ⟨huse, hlink⟩ := harena.link slot n.bare block hlive (frame_of_node hn) hblock
      obtain ⟨g, hg, -, hup, -⟩ := hlink child hchild
      have hle := hunder.depth_le harena htop hf (frame_of_node hn)
      generalize hslot : layout.firstSlot block + child = low at h' hg
      cases h' with
      | self =>
          obtain rfl : f' = g := Option.some.inj (hf'.symm.trans hg)
          omega
      | @child slot' block' child' n' hunder' hn' hblock' hchild' =>
          obtain ⟨rfl, rfl⟩ := Layout.firstSlot_add_inj hchild hchild' hslot
          obtain rfl := harena.owner_unique hlive (hunder'.live harena htop') (frame_of_node hn)
            (frame_of_node hn') hblock hblock'
          exact ih hunder'

/-- The slots met by following every link down from a slot, each before those below
it. -/
def walk (t : Tree layout) : Nat → Nat → List Nat
  | 0, slot => [slot]
  | levels + 1, slot =>
      slot :: ((t.nodes[slot]?).bind Node.children).elim []
        fun block => (layout.blockSlots block).flatMap (t.walk levels)

theorem walk_leaf {slot : Nat} {n : Node} (hn : t.nodes[slot]? = some n) (hleaf : n.children = none)
    (levels : Nat) : t.walk levels slot = [slot] := by
  cases levels with
  | zero => rfl
  | succ levels => simp [walk, hn, hleaf]

theorem walk_divided {slot block : Nat} {n : Node} (hn : t.nodes[slot]? = some n)
    (hblock : n.children = some block) (levels : Nat) :
    t.walk (levels + 1) slot = slot :: (layout.blockSlots block).flatMap (t.walk levels) := by
  simp [walk, hn, hblock]

/-- The walk is long enough if the levels below the slot are allowed for. -/
structure Allows (t : Tree layout) (levels slot : Nat) (n : Node) : Prop where
  live : t.Live slot
  node_eq : t.nodes[slot]? = some n
  le : t.config.maxDepth ≤ n.depth + levels

namespace Allows

variable {levels slot block child : Nat} {n : Node}

theorem root (harena : t.Arena) : ∃ n, t.Allows t.config.maxDepth rootSlot n := by
  obtain ⟨n, hn⟩ := harena.exists_node (live_root t)
  exact ⟨n, live_root t, hn, Nat.le_add_left _ _⟩

theorem leaf_of_zero (h : t.Allows 0 slot n) (harena : t.Arena) : n.children = none :=
  (harena.depth_lt h.live (frame_of_node h.node_eq)).resolve_right (not_lt.mpr h.le)

theorem exists_child (h : t.Allows (levels + 1) slot n) (harena : t.Arena)
    (hblock : n.children = some block) (hchild : child < layout.arity) :
    ∃ m, t.Allows levels (layout.firstSlot block + child) m ∧ m.depth = n.depth + 1 ∧
      m.bounds = layout.childBounds n.bounds n.bounds.center child := by
  obtain ⟨huse, hlink⟩ := harena.link slot n.bare block h.live (frame_of_node h.node_eq) hblock
  obtain ⟨g, hg, -, hdepth, hbounds⟩ := hlink child hchild
  obtain ⟨m, hm, rfl⟩ := exists_node_of_frame hg
  have hle := h.le
  rw [Node.bare_depth, Node.bare_depth] at hdepth
  exact ⟨m, ⟨live_child huse hchild, hm, by omega⟩, hdepth, hbounds⟩

end Allows

theorem under_of_mem_walk {levels slot i : Nat} (hi : i ∈ t.walk levels slot) :
    t.Under slot i := by
  induction levels generalizing slot with
  | zero =>
      obtain rfl := List.mem_singleton.mp hi
      exact .self
  | succ levels ih =>
      rcases List.mem_cons.mp hi with rfl | hi
      · exact .self
      · cases hn : t.nodes[slot]? with
        | none => simp [hn] at hi
        | some n =>
            cases hblock : n.children with
            | none => simp [hn, hblock] at hi
            | some block =>
                rw [hn, Option.bind_some, hblock, Option.elim_some, List.mem_flatMap] at hi
                obtain ⟨low, hlow, hi⟩ := hi
                obtain ⟨child, hchild, rfl⟩ := Layout.mem_blockSlots.mp hlow
                exact (Under.child .self hn hblock hchild).trans (ih hi)

theorem Under.cases_down {top slot : Nat} (h : t.Under top slot) :
    slot = top ∨ ∃ n block child, t.nodes[top]? = some n ∧ n.children = some block ∧
      child < layout.arity ∧ t.Under (layout.firstSlot block + child) slot := by
  induction h with
  | self => exact Or.inl rfl
  | child hunder hn hblock hchild ih =>
      rcases ih with rfl | ⟨n', block', child', hn', hblock', hchild', hunder'⟩
      · exact Or.inr ⟨_, _, _, hn, hblock, hchild, .self⟩
      · exact Or.inr ⟨n', block', child', hn', hblock', hchild', .child hunder' hn hblock hchild⟩

theorem mem_walk_iff (harena : t.Arena) {levels slot : Nat} {n : Node}
    (h : t.Allows levels slot n) (i : Nat) : i ∈ t.walk levels slot ↔ t.Under slot i := by
  refine ⟨under_of_mem_walk, ?_⟩
  intro hunder
  induction levels generalizing slot n with
  | zero =>
      have hleaf := h.leaf_of_zero harena
      rcases hunder.cases_down with rfl | ⟨m, block, child, hm, hblock, -, -⟩
      · exact List.mem_singleton.mpr rfl
      · obtain rfl : n = m := Option.some.inj (h.node_eq.symm.trans hm)
        cases hleaf.symm.trans hblock
  | succ levels ih =>
      rcases hunder.cases_down with rfl | ⟨m, block, child, hm, hblock, hchild, hunder⟩
      · exact List.mem_cons_self
      · rw [walk_divided hm hblock]
        obtain rfl : n = m := Option.some.inj (h.node_eq.symm.trans hm)
        obtain ⟨m, hallows, -⟩ := h.exists_child harena hblock hchild
        exact List.mem_cons_of_mem _ (List.mem_flatMap.mpr
          ⟨_, Layout.mem_blockSlots.mpr ⟨child, hchild, rfl⟩, ih hallows hunder⟩)

theorem nodup_walk (harena : t.Arena) {levels slot : Nat} {n : Node}
    (h : t.Allows levels slot n) : (t.walk levels slot).Nodup := by
  induction levels generalizing slot n with
  | zero => exact List.nodup_singleton slot
  | succ levels ih =>
      cases hblock : n.children with
      | none =>
          rw [walk_leaf h.node_eq hblock]
          exact List.nodup_singleton slot
      | some block =>
          rw [walk_divided h.node_eq hblock, List.nodup_cons]
          refine ⟨?_, List.nodup_flatMap.mpr ⟨?_, ?_⟩⟩
          · intro hmem
            obtain ⟨low, hlow, hmem⟩ := List.mem_flatMap.mp hmem
            obtain ⟨child, hchild, rfl⟩ := Layout.mem_blockSlots.mp hlow
            obtain ⟨m, hallows, hdepth, -⟩ := h.exists_child harena hblock hchild
            have hle := (under_of_mem_walk hmem).depth_le harena hallows.live
              (frame_of_node hallows.node_eq) (frame_of_node h.node_eq)
            rw [Node.bare_depth, Node.bare_depth] at hle
            omega
          · intro low hlow
            obtain ⟨child, hchild, rfl⟩ := Layout.mem_blockSlots.mp hlow
            obtain ⟨m, hallows, -⟩ := h.exists_child harena hblock hchild
            exact ih hallows
          · refine (Layout.nodup_blockSlots block).imp_of_mem fun {low low'} hlow hlow' hne => ?_
            refine List.disjoint_left.mpr fun i hi hi' => hne ?_
            obtain ⟨child, hchild, rfl⟩ := Layout.mem_blockSlots.mp hlow
            obtain ⟨child', hchild', rfl⟩ := Layout.mem_blockSlots.mp hlow'
            obtain ⟨m, hallows, hdepth, -⟩ := h.exists_child harena hblock hchild
            obtain ⟨m', hallows', hdepth', -⟩ := h.exists_child harena hblock hchild'
            exact Under.unique harena hallows.live hallows'.live (frame_of_node hallows.node_eq)
              (frame_of_node hallows'.node_eq) (hdepth.trans hdepth'.symm) (under_of_mem_walk hi)
              (under_of_mem_walk hi')

/-- The slots that following links from the root visits. -/
def reachableSlots (t : Tree layout) : List Nat := t.walk t.config.maxDepth rootSlot

theorem mem_reachableSlots (harena : t.Arena) (slot : Nat) :
    slot ∈ t.reachableSlots ↔ t.Reachable slot := by
  obtain ⟨n, hallows⟩ := Allows.root harena
  exact mem_walk_iff harena hallows slot

theorem nodup_reachableSlots (harena : t.Arena) : t.reachableSlots.Nodup := by
  obtain ⟨n, hallows⟩ := Allows.root harena
  exact nodup_walk harena hallows

end Tree

end Broadphase
