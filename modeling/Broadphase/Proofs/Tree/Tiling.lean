import Mathlib
import Broadphase.Proofs.Tree.BoxQuery

/-!
The children of a node tile it. Every point of the node is in the child that it is numbered
with, and the points that two children share lie on a split plane, whatever the arithmetic
does. That the children are boxes inside of the node needs more: the centre is computed from
the sum of two corners, and where this sum overflows the centre is no point of the node.
Then one child reaches to infinity and the other one is upside down. A tree is nested as long
as no node that it divides is of this kind.
-/

namespace Broadphase

namespace Box

/-- A box with its lower corner below the upper one, in an outer box. -/
structure Encloses (outer b : Box) : Prop where
  ordered : b.Ordered
  contains : outer.contains b = true

theorem Encloses.trans {a b c : Box} (hab : a.Encloses b) (hbc : b.Encloses c) : a.Encloses c :=
  ⟨hbc.ordered, contains_trans hab.contains hbc.contains⟩

theorem Acceptable.encloses_self {b : Box} (h : b.Acceptable) : b.Encloses b := by
  refine ⟨h.ordered, contains_iff.mpr fun axis => ?_⟩
  obtain ⟨hmin, hmax, -⟩ := Scalar.le_iff.mp (h.ordered axis)
  exact ⟨Scalar.le_refl hmin, Scalar.le_refl hmax⟩

/-- What an acceptable box encloses has finite corners as well. -/
theorem Acceptable.of_encloses {outer b : Box} (h : outer.Acceptable) (hb : outer.Encloses b) :
    b.Acceptable := by
  have hcontains := contains_iff.mp hb.contains
  refine ⟨fun axis => ?_, fun axis => ?_, hb.ordered⟩
  · exact Scalar.isFinite_of_between (h.min_finite axis) (h.max_finite axis) (hcontains axis).1
      (Scalar.le_trans (hb.ordered axis) (hcontains axis).2)
  · exact Scalar.isFinite_of_between (h.min_finite axis) (h.max_finite axis)
      (Scalar.le_trans (hcontains axis).1 (hb.ordered axis)) (hcontains axis).2

theorem Acceptable.isFinite_center_iff {b : Box} (h : b.Acceptable) (axis : Vec3.Axis) :
    (b.center.along axis).isFinite = true ↔
      b.min.along axis ≤ b.center.along axis ∧ b.center.along axis ≤ b.max.along axis := by
  rw [center_along]
  exact Scalar.isFinite_midpoint_iff (h.min_finite axis) (h.max_finite axis) (h.ordered axis)

end Box

namespace Layout

variable {layout : Layout} {parent : Box} {p : Vec3}

theorem childBounds_low (parent : Box) {child bit : Nat} {axis : Vec3.Axis}
    (hbit : layout.bit? axis = some bit) (htest : child.testBit bit = false) :
    (layout.childBounds parent parent.center child).min.along axis = parent.min.along axis ∧
      (layout.childBounds parent parent.center child).max.along axis =
        parent.center.along axis := by
  have hends := childBounds_along layout parent parent.center child axis
  simp only [hbit, htest, half, Bool.not_false, if_true, Prod.mk.injEq] at hends
  exact hends

theorem childBounds_high (parent : Box) {child bit : Nat} {axis : Vec3.Axis}
    (hbit : layout.bit? axis = some bit) (htest : child.testBit bit = true) :
    (layout.childBounds parent parent.center child).min.along axis = parent.center.along axis ∧
      (layout.childBounds parent parent.center child).max.along axis =
        parent.max.along axis := by
  have hends := childBounds_along layout parent parent.center child axis
  simp only [hbit, htest, half, Bool.not_true, Bool.false_eq_true, if_false,
    Prod.mk.injEq] at hends
  exact hends

/-- A box whose centre is finite on the axes that the layout splits. -/
def Halvable (layout : Layout) (b : Box) : Prop :=
  ∀ axis bit, layout.bit? axis = some bit → (b.center.along axis).isFinite = true

/-- The children of a box with a finite centre are boxes in it. -/
theorem Halvable.encloses (hhalvable : layout.Halvable parent) (h : parent.Acceptable)
    (child : Nat) : parent.Encloses (layout.childBounds parent parent.center child) := by
  have haxis (axis : Vec3.Axis) :
      (layout.childBounds parent parent.center child).min.along axis ≤
          (layout.childBounds parent parent.center child).max.along axis ∧
        parent.min.along axis ≤ (layout.childBounds parent parent.center child).min.along axis ∧
        (layout.childBounds parent parent.center child).max.along axis ≤ parent.max.along axis := by
    obtain ⟨hmin, hmax⟩ := Box.contains_iff.mp h.encloses_self.contains axis
    rcases childBounds_cases layout parent child axis with
      ⟨-, heqmin, heqmax⟩ | ⟨bit, hbit, -, heqmin, heqmax⟩ | ⟨bit, hbit, -, heqmin, heqmax⟩
    · rw [heqmin, heqmax]
      exact ⟨h.ordered axis, hmin, hmax⟩
    · obtain ⟨hlow, hhigh⟩ := (h.isFinite_center_iff axis).mp (hhalvable axis bit hbit)
      rw [heqmin, heqmax, ← Box.center_along]
      exact ⟨hlow, hmin, hhigh⟩
    · obtain ⟨hlow, hhigh⟩ := (h.isFinite_center_iff axis).mp (hhalvable axis bit hbit)
      rw [heqmin, heqmax, ← Box.center_along]
      exact ⟨hhigh, hlow, hmax⟩
  exact ⟨fun axis => (haxis axis).1, Box.contains_iff.mpr fun axis => (haxis axis).2⟩

/-- A box whose lowest child is a box in it has a finite centre. -/
theorem halvable_of_encloses (h : parent.Acceptable)
    (hlowest : parent.Encloses (layout.childBounds parent parent.center 0)) :
    layout.Halvable parent := by
  intro axis bit hbit
  obtain ⟨hmin, hmax⟩ := childBounds_low parent hbit (Nat.zero_testBit bit)
  rw [h.isFinite_center_iff, ← hmax]
  refine ⟨?_, (Box.contains_iff.mp hlowest.contains axis).2⟩
  have hordered := hlowest.ordered axis
  rwa [hmin] at hordered

/-- A point of a box is in the child that it is numbered with. -/
theorem containsPoint_childIndex {world : Box} (htame : Box.Tame world parent)
    (hp : parent.containsPoint p = true) :
    (layout.childBounds parent parent.center
      (layout.childIndex parent.center p)).containsPoint p = true := by
  rw [Box.containsPoint_iff] at hp ⊢
  intro axis
  obtain ⟨hmin, hmax⟩ := hp axis
  rcases childBounds_cases layout parent (layout.childIndex parent.center p) axis with
    ⟨-, heqmin, heqmax⟩ | ⟨bit, hbit, htest, heqmin, heqmax⟩ | ⟨bit, hbit, htest, heqmin, heqmax⟩
  · rw [heqmin, heqmax]
    exact ⟨hmin, hmax⟩
  · rw [heqmin, heqmax]
    have hbelow : ¬ parent.center.along axis ≤ p.along axis := by
      rw [← testBit_childIndex hbit, htest]
      exact Bool.false_ne_true
    rw [Box.center_along, Scalar.not_le (htame axis).midpoint_isNumber (Scalar.le_iff.mp hmin).2.1]
      at hbelow
    exact ⟨hmin, Scalar.le_of_lt hbelow⟩
  · rw [heqmin, heqmax]
    rw [testBit_childIndex hbit, Box.center_along] at htest
    exact ⟨htest, hmax⟩

/-- A point of a child does not lie beyond the planes that bound the child. -/
theorem side_of_containsPoint {child bit : Nat} {axis : Vec3.Axis}
    (hbit : layout.bit? axis = some bit)
    (h : (layout.childBounds parent parent.center child).containsPoint p = true) :
    (child.testBit bit = false → p.along axis ≤ parent.center.along axis) ∧
      (child.testBit bit = true → parent.center.along axis ≤ p.along axis) := by
  obtain ⟨hmin, hmax⟩ := Box.containsPoint_iff.mp h axis
  constructor
  · intro htest
    exact (childBounds_low parent hbit htest).2 ▸ hmax
  · intro htest
    exact (childBounds_high parent hbit htest).1 ▸ hmin

/-- On an axis where the numbers of two children differ, a point of both is on the plane. -/
theorem on_plane_of_testBit_ne {i j bit : Nat} {axis : Vec3.Axis}
    (hbit : layout.bit? axis = some bit) (hne : i.testBit bit ≠ j.testBit bit)
    (hi : (layout.childBounds parent parent.center i).containsPoint p = true)
    (hj : (layout.childBounds parent parent.center j).containsPoint p = true) :
    (p.along axis == parent.center.along axis) = true := by
  obtain ⟨hlow, hhigh⟩ := side_of_containsPoint hbit hi
  obtain ⟨hlow', hhigh'⟩ := side_of_containsPoint hbit hj
  cases htest : i.testBit bit with
  | false =>
      have htest' : j.testBit bit = true := Bool.of_not_eq_false fun heq => hne (htest.trans heq.symm)
      exact Scalar.beq_of_le (hlow htest) (hhigh' htest')
  | true =>
      have htest' : j.testBit bit = false := Bool.of_not_eq_true fun heq => hne (htest.trans heq.symm)
      exact Scalar.beq_of_le (hlow' htest') (hhigh htest)

/-- A point that two children share lies on a split plane. -/
theorem on_plane_of_two_children {i j : Nat} (hi : i < layout.arity) (hj : j < layout.arity)
    (hne : i ≠ j) (hpi : (layout.childBounds parent parent.center i).containsPoint p = true)
    (hpj : (layout.childBounds parent parent.center j).containsPoint p = true) :
    ∃ axis bit, layout.bit? axis = some bit ∧
      (p.along axis == parent.center.along axis) = true := by
  by_contra hclear
  refine hne (eq_of_testBit hi hj fun axis bit hbit => ?_)
  by_contra hdiffer
  exact hclear ⟨axis, bit, hbit, on_plane_of_testBit_ne hbit hdiffer hpi hpj⟩

/-- The children of a box cover it, and share points of a split plane only. -/
structure Covers (layout : Layout) (parent : Box) : Prop where
  covers : ∀ p, parent.containsPoint p = true →
    layout.childIndex parent.center p < layout.arity ∧
      (layout.childBounds parent parent.center
        (layout.childIndex parent.center p)).containsPoint p = true
  shares : ∀ i j p, i < layout.arity → j < layout.arity → i ≠ j →
    (layout.childBounds parent parent.center i).containsPoint p = true →
    (layout.childBounds parent parent.center j).containsPoint p = true →
    ∃ axis bit, layout.bit? axis = some bit ∧ (p.along axis == parent.center.along axis) = true

theorem covers_of_tame {world : Box} (h : Box.Tame world parent) : layout.Covers parent := by
  constructor
  · intro p hp
    exact ⟨childIndex_lt_arity _ _, containsPoint_childIndex h hp⟩
  · intro i j p hi hj hne hpi hpj
    exact on_plane_of_two_children hi hj hne hpi hpj

/-- The children of a finite box are boxes in it exactly if its centre does not overflow. -/
theorem encloses_children_iff (h : parent.Acceptable) :
    (∀ child < layout.arity,
      parent.Encloses (layout.childBounds parent parent.center child)) ↔
      layout.Halvable parent := by
  constructor
  · intro hencloses
    exact halvable_of_encloses h (hencloses 0 layout.arity_pos)
  · intro hhalvable child _
    exact hhalvable.encloses h child

theorem halvable_of_moderate (h : parent.Moderate) : layout.Halvable parent := by
  intro axis bit _
  rw [Box.center_along]
  obtain ⟨-, hlow, -⟩ := (h axis).halves
  obtain ⟨a, b, ha, hb, -⟩ := hlow.exists_ends
  exact hb.isFinite

end Layout

namespace Tree

variable {layout : Layout} {t : Tree layout}

/-- Each node of the tree is a box in every node above it. -/
def NestedNodes (t : Tree layout) : Prop :=
  ∀ (top slot : Nat) (above below : Node), t.Reachable top → t.Under top slot →
    t.nodes[top]? = some above → t.nodes[slot]? = some below →
      above.bounds.Encloses below.bounds

/-- No divided node of the tree has an overflowing centre. -/
def HalvableNodes (t : Tree layout) : Prop :=
  ∀ (slot block : Nat) (n : Node), t.Reachable slot → t.nodes[slot]? = some n →
    n.children = some block → layout.Halvable n.bounds

theorem encloses_of_under (harena : t.Arena) (hhalvable : t.HalvableNodes) {top slot : Nat}
    {above below : Node} (htop : t.Reachable top) (habove : t.nodes[top]? = some above)
    (hacceptable : above.bounds.Acceptable) (h : t.Under top slot)
    (hbelow : t.nodes[slot]? = some below) : above.bounds.Encloses below.bounds := by
  have hlive := (reachable_iff_live harena top).mp htop
  refine h.bounds_induction (motive := above.bounds.Encloses) (g := below.bare) harena hlive
    (frame_of_node habove) hacceptable.encloses_self ?_ (frame_of_node hbelow)
  intro i block child n hunder hn hblock hencloses
  have hhalf := (hhalvable i block n (htop.trans hunder) hn hblock).encloses
    (hacceptable.of_encloses hencloses) child
  exact hencloses.trans hhalf

/-- The tree is nested exactly if no node that it has divided has an overflowing centre. -/
theorem nestedNodes_iff (harena : t.Arena) : t.NestedNodes ↔ t.HalvableNodes := by
  obtain ⟨f, hf, hworld, -⟩ := harena.root
  obtain ⟨root, hroot, rfl⟩ := exists_node_of_frame hf
  have hacceptable : root.bounds.Acceptable := hworld ▸ harena.acceptable
  constructor
  · intro hnested slot block n hreachable hn hblock
    have hlive := (reachable_iff_live harena slot).mp hreachable
    obtain ⟨g, hg, -, -, hbounds⟩ :=
      (harena.link slot n.bare block hlive (frame_of_node hn) hblock).2 0 layout.arity_pos
    obtain ⟨lowest, hlowest, rfl⟩ := exists_node_of_frame hg
    have hencloses := hnested slot _ n lowest hreachable
      (.child .self hn hblock layout.arity_pos) hn hlowest
    rw [Node.bare_bounds, Node.bare_bounds] at hbounds
    rw [hbounds] at hencloses
    have hnode := hnested rootSlot slot root n .self hreachable hroot hn
    exact Layout.halvable_of_encloses (hacceptable.of_encloses hnode) hencloses
  · intro hhalvable top slot above below htop hunder habove hbelow
    have hencloses := encloses_of_under harena hhalvable .self hroot hacceptable htop habove
    exact encloses_of_under harena hhalvable htop habove (hacceptable.of_encloses hencloses) hunder
      hbelow

theorem halvableNodes_of_moderate (harena : t.Arena) (hworld : t.world.Moderate) :
    t.HalvableNodes := by
  intro slot block n hreachable hn hblock
  obtain ⟨f, hf, hbounds, -⟩ := harena.root
  exact Layout.halvable_of_moderate (contains_of_under harena (live_root t) hf (hbounds ▸ hworld)
    hreachable (frame_of_node hn)).2

/-- In every state that changes lead to, the children of a node cover it and share points of
a split plane only, and the same holds of the children of any finite box. These are boxes in
it exactly if its centre does not overflow. The nodes of the tree are nested exactly if no
divided one has an overflowing centre, and in a world of moderate coordinates they are. -/
theorem children_tile_of_run {config : TreeConfig} {t₀ : Tree layout}
    (hcreate : (create layout config).1 = .ok t₀) (changes : List Change) :
    let t := SpatialIndex.run t₀ changes
    (∀ parent : Box, parent.Acceptable → layout.Covers parent ∧
      ((∀ child < layout.arity,
        parent.Encloses (layout.childBounds parent parent.center child)) ↔
        layout.Halvable parent)) ∧
    (∀ (slot : Nat) (n : Node), t.Reachable slot → t.nodes[slot]? = some n →
      layout.Covers n.bounds) ∧
    (t.NestedNodes ↔ t.HalvableNodes) ∧ (ModerateWorld config.world → t.NestedNodes) := by
  intro t
  obtain ⟨hwell, hconfig, -⟩ := wellFormed_of_create hcreate changes
  refine ⟨?_, ?_, nestedNodes_iff hwell.arena, ?_⟩
  · intro parent h
    exact ⟨Layout.covers_of_tame h.tame, Layout.encloses_children_iff h⟩
  · intro slot n hreachable hn
    have hlive := (reachable_iff_live hwell.arena slot).mp hreachable
    exact Layout.covers_of_tame (hwell.arena.tame slot n.bare hlive (frame_of_node hn))
  · intro hmoderate
    have hworld : t.world.Moderate := by
      refine hwell.arena.acceptable.moderate ?_
      rw [world, hconfig]
      exact Layout.moderateWorld_project hmoderate
    exact (nestedNodes_iff hwell.arena).mpr (halvableNodes_of_moderate hwell.arena hworld)

/-- Two entities divide the root of a quadtree over the default world, and the tree is nested. -/
theorem children_tile_of_run_divided :
    let t : Quadtree := SpatialIndex.run (empty { maxOccupants := 1 })
      [.update ⟨1, 0⟩ (.splat (-10)) none, .update ⟨2, 0⟩ (.splat 10) none]
    t.NestedNodes ∧ t.HalvableNodes ∧ t.nodes.size = 5 := by
  intro t
  have hcreate : (create .quad { maxOccupants := 1 }).1 = .ok (empty { maxOccupants := 1 }) :=
    create_eq_ok (by decide +kernel)
  obtain ⟨-, -, hiff, hnested⟩ := children_tile_of_run hcreate
    [.update ⟨1, 0⟩ (.splat (-10)) none, .update ⟨2, 0⟩ (.splat 10) none]
  have htree := hnested moderateWorld_default
  exact ⟨htree, hiff.mp htree, by decide +kernel⟩

/-- The sum of the corners of a world in which every coordinate is the greatest finite number
overflows. Its lowest child reaches to infinity and its highest one is upside down, and so
are the nodes of a tree that two entities divide. -/
theorem children_tile_overflow :
    let world : Box := ⟨.splat (.ofBits 0x7f7fffff), .splat (.ofBits 0x7f7fffff)⟩
    let t : Octree := SpatialIndex.run (empty { world, maxDepth := 1, maxOccupants := 1 })
      [.update ⟨1, 0⟩ world.min none, .update ⟨2, 0⟩ world.min none]
    world.Acceptable ∧
    (create .oct { world, maxDepth := 1, maxOccupants := 1 }).1 =
      .ok (empty { world, maxDepth := 1, maxOccupants := 1 }) ∧
    world.contains (Layout.oct.childBounds world world.center 0) = false ∧
    ¬ (Layout.oct.childBounds world world.center 7).Ordered ∧ ¬ t.NestedNodes := by
  intro world t
  have hworld : world.Acceptable := by
    refine ⟨?_, ?_, ?_⟩ <;> intro axis <;> cases axis <;> decide +kernel
  have hlowest : world.contains (Layout.oct.childBounds world world.center 0) = false := by
    decide +kernel
  refine ⟨hworld, create_eq_ok (by decide +kernel), hlowest, ?_, ?_⟩
  · intro hordered
    exact absurd (hordered .x) (by decide +kernel)
  · intro hnested
    have hroot : (t.nodes[rootSlot]?).map (fun n => (n.bounds, n.children)) =
        some (world, some 0) := by
      decide +kernel
    have hchild : (t.nodes[1]?).map (·.bounds) =
        some (Layout.oct.childBounds world world.center 0) := by
      decide +kernel
    obtain ⟨root, hn, hroot⟩ := Option.map_eq_some_iff.mp hroot
    obtain ⟨lowest, hn', hbounds⟩ := Option.map_eq_some_iff.mp hchild
    obtain ⟨hsame, hblock⟩ := Prod.mk.inj hroot
    have hunder : t.Under rootSlot 1 := .child .self hn hblock Layout.oct.arity_pos
    have hcontains := (hnested rootSlot 1 root lowest .self hunder hn hn').contains
    rw [hsame, hbounds, hlowest] at hcontains
    exact Bool.false_ne_true hcontains

end Tree

end Broadphase
