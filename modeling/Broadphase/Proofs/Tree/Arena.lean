import Mathlib
import Broadphase.Tree.Basic
import Broadphase.Proofs.BlockPool
import Broadphase.Proofs.Tree.Geometry

/-!
The invariant of the node array. Blocks in use and retired ones partition the
range of the pool, the slots of the array are the root's and those of the range,
and every block in use has exactly one owner, whose children its nodes are. The
entities in the nodes do not matter for any of this, so the invariant reads nodes
through `frame`, which leaves the entities out.
-/

namespace Broadphase

namespace Layout

variable {layout : Layout}

theorem firstSlot_add_ne_zero (block child : Nat) : layout.firstSlot block + child ≠ rootSlot := by
  unfold firstSlot rootSlot
  omega

/-- Slots below the root are numbered by block and child. -/
theorem firstSlot_add_inj {block block' child child' : Nat} (hchild : child < layout.arity)
    (hchild' : child' < layout.arity)
    (h : layout.firstSlot block + child = layout.firstSlot block' + child') :
    block = block' ∧ child = child' := by
  cases layout <;> simp only [firstSlot, arity] at * <;> omega

theorem mem_blockSlots {block slot : Nat} :
    slot ∈ layout.blockSlots block ↔
      ∃ child < layout.arity, slot = layout.firstSlot block + child := by
  unfold blockSlots
  rw [List.mem_range'_1]
  constructor
  · rintro ⟨hle, hlt⟩
    exact ⟨slot - layout.firstSlot block, by omega, by omega⟩
  · rintro ⟨child, hlt, rfl⟩
    exact ⟨by omega, by omega⟩

theorem nodup_blockSlots (block : Nat) : (layout.blockSlots block).Nodup := List.nodup_range'

/-- The blocks below a bound are the slots below the bound's first one. -/
theorem firstSlot_add_lt {block child bound : Nat} (hblock : block < bound)
    (hchild : child < layout.arity) :
    layout.firstSlot block + child < layout.firstSlot bound := by
  have hmul : (block + 1) * layout.arity ≤ bound * layout.arity :=
    Nat.mul_le_mul_right layout.arity hblock
  unfold firstSlot
  rw [Nat.add_mul] at hmul
  omega

theorem firstSlot_mono {block bound : Nat} (h : block ≤ bound) :
    layout.firstSlot block ≤ layout.firstSlot bound := by
  have hmul := Nat.mul_le_mul_right layout.arity h
  unfold firstSlot
  omega

end Layout

def Node.bare (n : Node) : Node := { n with occupants := #[] }

@[simp] theorem Node.bare_bounds (n : Node) : n.bare.bounds = n.bounds := rfl

@[simp] theorem Node.bare_depth (n : Node) : n.bare.depth = n.depth := rfl

@[simp] theorem Node.bare_parent (n : Node) : n.bare.parent = n.parent := rfl

@[simp] theorem Node.bare_children (n : Node) : n.bare.children = n.children := rfl

namespace Tree

variable {layout : Layout} {t t' : Tree layout}

def frame (t : Tree layout) (slot : Nat) : Option Node := (t.nodes[slot]?).map Node.bare

/-- The entities in a slot; a slot that does not exist has none. -/
def occupantsAt (t : Tree layout) (slot : Nat) : Array Handle :=
  (t.nodes[slot]?).elim #[] Node.occupants

/-- The slots in use: the root's and those of the blocks in use. -/
def Live (t : Tree layout) (slot : Nat) : Prop :=
  slot = rootSlot ∨ ∃ block child, t.pool.InUse block ∧ child < layout.arity ∧
    slot = layout.firstSlot block + child

def world (t : Tree layout) : Box := layout.project t.config.world

theorem frame_of_node {slot : Nat} {n : Node} (h : t.nodes[slot]? = some n) :
    t.frame slot = some n.bare := by
  rw [frame, h, Option.map_some]

theorem occupantsAt_of_node {slot : Nat} {n : Node} (h : t.nodes[slot]? = some n) :
    t.occupantsAt slot = n.occupants := by
  rw [occupantsAt, h, Option.elim_some]

theorem exists_node_of_frame {slot : Nat} {f : Node} (h : t.frame slot = some f) :
    ∃ n, t.nodes[slot]? = some n ∧ f = n.bare := by
  obtain ⟨n, hn, rfl⟩ := Option.map_eq_some_iff.mp h
  exact ⟨n, hn, rfl⟩

/-- A node is told by its frame and its entities. -/
theorem node_of_frame {slot : Nat} {f : Node} (h : t.frame slot = some f) :
    t.nodes[slot]? = some { f with occupants := t.occupantsAt slot } := by
  obtain ⟨n, hn, rfl⟩ := exists_node_of_frame h
  rw [hn, occupantsAt_of_node hn]
  rfl

theorem node_ext {i j : Nat} (hframe : t'.frame i = t.frame j)
    (hoccupants : t'.occupantsAt i = t.occupantsAt j) : t'.nodes[i]? = t.nodes[j]? := by
  cases hf : t.frame j with
  | none =>
      rw [hf] at hframe
      exact (Option.map_eq_none_iff.mp hframe).trans (Option.map_eq_none_iff.mp hf).symm
  | some f => rw [node_of_frame hf, node_of_frame (hframe.trans hf), hoccupants]

theorem node_eq_ok {slot : Nat} {n : Node} (h : t.nodes[slot]? = some n) : t.node slot = .ok n := by
  rw [node, h]

/-- The array and the pool hang together as a tree of blocks. -/
structure Arena (t : Tree layout) : Prop where
  acceptable : t.world.Acceptable
  pool_sound : t.pool.Sound
  pooling_eq : t.pool.pooling = t.config.pooling
  size_eq : t.nodes.size = layout.firstSlot t.pool.highWater
  root : ∃ f, t.frame rootSlot = some f ∧ f.bounds = t.world ∧ f.depth = 0 ∧ f.parent = none
  depth_le : ∀ slot f, t.Live slot → t.frame slot = some f → f.depth ≤ t.config.maxDepth
  tame : ∀ slot f, t.Live slot → t.frame slot = some f → Box.Tame t.world f.bounds
  /-- A divided node has the block's nodes for children. -/
  link : ∀ slot f block, t.Live slot → t.frame slot = some f → f.children = some block →
    t.pool.InUse block ∧ ∀ child < layout.arity, ∃ g,
      t.frame (layout.firstSlot block + child) = some g ∧ g.parent = some slot ∧
        g.depth = f.depth + 1 ∧ g.bounds = layout.childBounds f.bounds f.bounds.center child
  /-- A block in use is the children of some node. -/
  owner : ∀ block, t.pool.InUse block → ∃ slot f, t.Live slot ∧ t.frame slot = some f ∧
    f.children = some block

theorem live_root (t : Tree layout) : t.Live rootSlot := Or.inl rfl

theorem live_child {block child : Nat} (hblock : t.pool.InUse block)
    (hchild : child < layout.arity) : t.Live (layout.firstSlot block + child) :=
  Or.inr ⟨block, child, hblock, hchild, rfl⟩

theorem live_child_iff {block child : Nat} (hchild : child < layout.arity) :
    t.Live (layout.firstSlot block + child) ↔ t.pool.InUse block := by
  refine ⟨?_, fun h => live_child h hchild⟩
  rintro (heq | ⟨block', child', huse, hchild', heq⟩)
  · exact absurd heq (Layout.firstSlot_add_ne_zero block child)
  · rwa [(Layout.firstSlot_add_inj hchild hchild' heq).1]

theorem Live.lt_firstSlot {slot : Nat} (h : t.Live slot) :
    slot < layout.firstSlot t.pool.highWater := by
  rcases h with rfl | ⟨block, child, huse, hchild, rfl⟩
  · unfold Layout.firstSlot rootSlot
    omega
  · exact Layout.firstSlot_add_lt huse.1 hchild

theorem live_iff_of_frees {block : Nat} (h : t.pool.Frees block t'.pool) (slot : Nat) :
    t'.Live slot ↔ t.Live slot ∧ slot ∉ layout.blockSlots block := by
  rw [Layout.mem_blockSlots]
  constructor
  · rintro (rfl | ⟨other, child, hother, hchild, rfl⟩)
    · refine ⟨live_root t, ?_⟩
      rintro ⟨child, -, heq⟩
      exact Layout.firstSlot_add_ne_zero block child heq.symm
    · obtain ⟨hother, hne⟩ := (h.inUse_iff other).mp hother
      refine ⟨live_child hother hchild, ?_⟩
      rintro ⟨child', hchild', heq⟩
      exact hne (Layout.firstSlot_add_inj hchild hchild' heq).1
  · rintro ⟨rfl | ⟨other, child, hother, hchild, rfl⟩, hnot⟩
    · exact live_root t'
    · refine live_child ((h.inUse_iff other).mpr ⟨hother, ?_⟩) hchild
      rintro rfl
      exact hnot ⟨child, hchild, rfl⟩

namespace Arena

/-- The invariant does not depend on the entities. -/
theorem congr (h : t.Arena) (hconfig : t'.config = t.config) (hpool : t'.pool = t.pool)
    (hsize : t'.nodes.size = t.nodes.size) (hframe : ∀ slot, t'.frame slot = t.frame slot) :
    t'.Arena := by
  have hworld : t'.world = t.world := by rw [world, world, hconfig]
  have hlive (slot : Nat) : t'.Live slot ↔ t.Live slot := by rw [Live, Live, hpool]
  refine ⟨?_, ?_, ?_, ?_, ?_, ?_, ?_, ?_, ?_⟩
  · rw [hworld]
    exact h.acceptable
  · rw [hpool]
    exact h.pool_sound
  · rw [hpool, hconfig]
    exact h.pooling_eq
  · rw [hsize, hpool]
    exact h.size_eq
  · simp only [hframe, hworld]
    exact h.root
  · simp only [hlive, hframe, hconfig]
    exact h.depth_le
  · simp only [hlive, hframe, hworld]
    exact h.tame
  · simp only [hlive, hframe, hpool]
    exact h.link
  · simp only [hlive, hframe, hpool]
    exact h.owner

theorem lt_size (h : t.Arena) {slot : Nat} (hlive : t.Live slot) : slot < t.nodes.size := by
  rw [h.size_eq]
  exact hlive.lt_firstSlot

theorem exists_node (h : t.Arena) {slot : Nat} (hlive : t.Live slot) :
    ∃ n, t.nodes[slot]? = some n := ⟨_, Array.getElem?_eq_getElem (h.lt_size hlive)⟩

theorem exists_frame (h : t.Arena) {slot : Nat} (hlive : t.Live slot) :
    ∃ f, t.frame slot = some f := by
  obtain ⟨n, hn⟩ := h.exists_node hlive
  exact ⟨n.bare, frame_of_node hn⟩

theorem exists_parent (h : t.Arena) {block child : Nat} (huse : t.pool.InUse block)
    (hchild : child < layout.arity) :
    ∃ slot f g, t.Live slot ∧ t.frame slot = some f ∧ f.children = some block ∧
      t.frame (layout.firstSlot block + child) = some g ∧ g.parent = some slot ∧
        g.depth = f.depth + 1 ∧ g.bounds = layout.childBounds f.bounds f.bounds.center child := by
  obtain ⟨slot, f, hlive, hf, hchildren⟩ := h.owner block huse
  obtain ⟨g, hg⟩ := (h.link slot f block hlive hf hchildren).2 child hchild
  exact ⟨slot, f, g, hlive, hf, hchildren, hg⟩

/-- The parent of a node in use is in use and a level above. -/
theorem live_parent (h : t.Arena) {slot above : Nat} {f : Node} (hlive : t.Live slot)
    (hf : t.frame slot = some f) (hparent : f.parent = some above) :
    t.Live above ∧ ∀ g, t.frame above = some g → f.depth = g.depth + 1 := by
  rcases hlive with rfl | ⟨block, child, huse, hchild, rfl⟩
  · obtain ⟨g, hg, -, -, hnone⟩ := h.root
    obtain rfl : f = g := Option.some.inj (hf.symm.trans hg)
    cases hnone.symm.trans hparent
  · obtain ⟨above', g, f', hlive', hg, -, hf', hparent', hdepth, -⟩ := h.exists_parent huse hchild
    obtain rfl : f = f' := Option.some.inj (hf.symm.trans hf')
    obtain rfl : above' = above := Option.some.inj (hparent'.symm.trans hparent)
    refine ⟨hlive', ?_⟩
    intro g' hg'
    obtain rfl : g = g' := Option.some.inj (hg.symm.trans hg')
    exact hdepth

theorem depth_lt (h : t.Arena) {slot : Nat} {f : Node} (hlive : t.Live slot)
    (hf : t.frame slot = some f) : f.children = none ∨ f.depth < t.config.maxDepth := by
  cases hblock : f.children with
  | none => exact Or.inl rfl
  | some block =>
      obtain ⟨huse, hlink⟩ := h.link slot f block hlive hf hblock
      obtain ⟨g, hg, -, hdepth, -⟩ := hlink 0 (Layout.arity_pos layout)
      have hle := h.depth_le _ g (live_child huse (Layout.arity_pos layout)) hg
      exact Or.inr (by omega)

/-- What a node that is the child of another one is like. -/
theorem child_frame (h : t.Arena) {slot block child : Nat} {f g : Node} (hlive : t.Live slot)
    (hf : t.frame slot = some f) (hblock : f.children = some block) (hchild : child < layout.arity)
    (hg : t.frame (layout.firstSlot block + child) = some g) :
    g.parent = some slot ∧ g.depth = f.depth + 1 ∧
      g.bounds = layout.childBounds f.bounds f.bounds.center child := by
  obtain ⟨g', hg', hlink⟩ := (h.link slot f block hlive hf hblock).2 child hchild
  obtain rfl : g = g' := Option.some.inj (hg.symm.trans hg')
  exact hlink

theorem owner_unique (h : t.Arena) {slot slot' block : Nat} {f f' : Node} (hlive : t.Live slot)
    (hlive' : t.Live slot') (hf : t.frame slot = some f) (hf' : t.frame slot' = some f')
    (hblock : f.children = some block) (hblock' : f'.children = some block) : slot = slot' := by
  obtain ⟨g, hg, hparent, -⟩ := (h.link slot f block hlive hf hblock).2 0 (Layout.arity_pos layout)
  obtain ⟨g', hg', hparent', -⟩ :=
    (h.link slot' f' block hlive' hf' hblock').2 0 (Layout.arity_pos layout)
  obtain rfl : g = g' := Option.some.inj (hg.symm.trans hg')
  exact Option.some.inj (hparent.symm.trans hparent')

/-- The root of a tree without divided nodes. -/
theorem frame_root (h : t.Arena) (hfree : ∀ block, ¬ t.pool.InUse block) :
    t.frame rootSlot = some (.leaf t.world 0 none) := by
  obtain ⟨f, hf, hbounds, hdepth, hparent⟩ := h.root
  obtain ⟨n, -, rfl⟩ := exists_node_of_frame hf
  have hleaf : n.children = none := by
    apply Option.eq_none_iff_forall_ne_some.mpr
    intro block hblock
    exact hfree block (h.link rootSlot n.bare block (live_root t) hf hblock).1
  rw [hf, Node.leaf, ← hbounds, ← hdepth, Node.bare, hleaf, show n.parent = none from hparent]

end Arena

theorem arena_empty {config : TreeConfig} (h : config.world.Acceptable) :
    (empty config : Tree layout).Arena := by
  have hacceptable : (layout.project config.world).Acceptable := Layout.acceptable_project h
  have hfree (block : Nat) : ¬ (empty config : Tree layout).pool.InUse block :=
    fun huse => Nat.not_lt_zero block huse.1
  have hframe : (empty config : Tree layout).frame rootSlot =
      some (.leaf (layout.project config.world) 0 none) := rfl
  have honly (slot : Nat) (hlive : (empty config : Tree layout).Live slot) : slot = rootSlot :=
    hlive.resolve_right fun ⟨block, _, huse, _⟩ => hfree block huse
  refine ⟨hacceptable, BlockPool.sound_empty config.pooling, rfl, ?_, ⟨_, hframe, rfl, rfl, rfl⟩,
    ?_, ?_, ?_, fun block huse => absurd huse (hfree block)⟩
  · change 1 = 1 + 0 * layout.arity
    omega
  · intro slot f hlive hf
    rw [honly slot hlive, hframe, Option.some.injEq] at hf
    rw [← hf]
    exact Nat.zero_le _
  · intro slot f hlive hf
    rw [honly slot hlive, hframe, Option.some.injEq] at hf
    rw [← hf]
    exact hacceptable.tame
  · intro slot f block hlive hf hblock
    rw [honly slot hlive, hframe, Option.some.injEq] at hf
    rw [← hf] at hblock
    cases hblock

end Tree

end Broadphase
