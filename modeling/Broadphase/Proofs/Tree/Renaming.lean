import Mathlib
import Broadphase.Proofs.Tree.Invariant
import Broadphase.Proofs.Tree.Search

/-!
Trees that differ only in the numbers of their blocks. A renaming of the blocks in use
takes the nodes, the lists and the records of one tree to those of the other. Whatever
follows links and records takes the same way through both trees, and so finds the same
places for boxes and hands over the same entities in the same order.
-/

namespace Broadphase

namespace Layout

variable {layout : Layout} {ρ : Nat → Nat}

/-- The slot of a node when its block gets another number. The root stays. -/
def renameSlot (layout : Layout) (ρ : Nat → Nat) (slot : Nat) : Nat :=
  if slot = rootSlot then rootSlot
  else layout.firstSlot (ρ ((slot - 1) / layout.arity)) + (slot - 1) % layout.arity

@[simp] theorem renameSlot_root : layout.renameSlot ρ rootSlot = rootSlot := if_pos rfl

theorem renameSlot_child {block child : Nat} (hchild : child < layout.arity) :
    layout.renameSlot ρ (layout.firstSlot block + child) =
      layout.firstSlot (ρ block) + child := by
  have hquotient : (layout.firstSlot block + child - 1) / layout.arity = block := by
    cases layout <;> simp only [firstSlot, arity] at * <;> omega
  have hremainder : (layout.firstSlot block + child - 1) % layout.arity = child := by
    cases layout <;> simp only [firstSlot, arity] at * <;> omega
  rw [renameSlot, if_neg (firstSlot_add_ne_zero block child), hquotient, hremainder]

theorem blockSlots_rename (block : Nat) :
    layout.blockSlots (ρ block) = (layout.blockSlots block).map (layout.renameSlot ρ) := by
  rw [blockSlots, blockSlots, List.range'_eq_map_range, List.range'_eq_map_range, List.map_map]
  refine List.map_congr_left fun child hchild => ?_
  exact (renameSlot_child (List.mem_range.mp hchild)).symm

end Layout

/-- A node with its links renamed. -/
def Node.rename (layout : Layout) (ρ : Nat → Nat) (n : Node) : Node :=
  { n with parent := n.parent.map (layout.renameSlot ρ), children := n.children.map ρ }

section Rename

variable {layout : Layout} {ρ : Nat → Nat} {n : Node}

@[simp] theorem Node.rename_bounds : (n.rename layout ρ).bounds = n.bounds := rfl

@[simp] theorem Node.rename_depth : (n.rename layout ρ).depth = n.depth := rfl

@[simp] theorem Node.rename_occupants : (n.rename layout ρ).occupants = n.occupants := rfl

@[simp]
theorem Node.rename_parent :
    (n.rename layout ρ).parent = n.parent.map (layout.renameSlot ρ) := rfl

@[simp] theorem Node.rename_children : (n.rename layout ρ).children = n.children.map ρ := rfl

@[simp]
theorem Node.rename_isLeaf : (n.rename layout ρ).isLeaf = n.isLeaf := by
  cases hchildren : n.children <;> simp [Node.isLeaf, hchildren]

end Rename

def Location.rename (layout : Layout) (ρ : Nat → Nat) (location : Location) : Location :=
  { location with slot := layout.renameSlot ρ location.slot }

namespace Tree

variable {layout : Layout} {t u : Tree layout} {ρ : Nat → Nat}

theorem live_rename (hinUse : ∀ block, t.pool.InUse block → u.pool.InUse (ρ block)) {slot : Nat}
    (hlive : t.Live slot) : u.Live (layout.renameSlot ρ slot) := by
  rcases hlive with rfl | ⟨block, child, huse, hchild, rfl⟩
  · rw [Layout.renameSlot_root]
    exact live_root u
  · rw [Layout.renameSlot_child hchild]
    exact live_child (hinUse block huse) hchild

/-- A renaming keeps slots in use apart if it keeps the blocks in use apart. -/
theorem renameSlot_inj (hinjective : ∀ block block', t.pool.InUse block → t.pool.InUse block' →
      ρ block = ρ block' → block = block') {i j : Nat} (hi : t.Live i) (hj : t.Live j) :
    layout.renameSlot ρ i = layout.renameSlot ρ j ↔ i = j := by
  refine ⟨?_, congrArg _⟩
  rcases hi with rfl | ⟨block, child, huse, hchild, rfl⟩ <;>
    rcases hj with rfl | ⟨block', child', huse', hchild', rfl⟩
  · exact fun _ => rfl
  · rw [Layout.renameSlot_root, Layout.renameSlot_child hchild']
    exact fun heq => absurd heq.symm (Layout.firstSlot_add_ne_zero _ child')
  · rw [Layout.renameSlot_root, Layout.renameSlot_child hchild]
    exact fun heq => absurd heq (Layout.firstSlot_add_ne_zero _ child)
  · rw [Layout.renameSlot_child hchild, Layout.renameSlot_child hchild']
    intro heq
    obtain ⟨hblock, rfl⟩ := Layout.firstSlot_add_inj hchild hchild' heq
    rw [hinjective block block' huse huse' hblock]

section Congruence

variable {ρ' : Nat → Nat} (hsame : ∀ block, t.pool.InUse block → ρ' block = ρ block)

include hsame

theorem renameSlot_congr {slot : Nat} (hlive : t.Live slot) :
    layout.renameSlot ρ' slot = layout.renameSlot ρ slot := by
  rcases hlive with rfl | ⟨block, child, huse, hchild, rfl⟩
  · rw [Layout.renameSlot_root, Layout.renameSlot_root]
  · rw [Layout.renameSlot_child hchild, Layout.renameSlot_child hchild, hsame block huse]

/-- The links of a node in use lead to slots and blocks in use. -/
theorem rename_congr (harena : t.Arena) {slot : Nat} {f : Node} (hlive : t.Live slot)
    (hf : t.frame slot = some f) : f.rename layout ρ' = f.rename layout ρ := by
  have hparent : f.parent.map (layout.renameSlot ρ') = f.parent.map (layout.renameSlot ρ) :=
    Option.map_congr fun above habove =>
      renameSlot_congr hsame (harena.live_parent hlive hf habove).1
  have hchildren : f.children.map ρ' = f.children.map ρ :=
    Option.map_congr fun block hblock => hsame block (harena.link slot f block hlive hf hblock).1
  rw [Node.rename, Node.rename, hparent, hchildren]

end Congruence

/-- The second tree is the first one with the blocks in use renamed; whether they keep
retired blocks does not matter. -/
structure Mirrors (ρ : Nat → Nat) (t u : Tree layout) : Prop where
  left : t.WellFormed
  right : u.WellFormed
  config_eq : { u.config with pooling := t.config.pooling } = t.config
  span_eq : u.span = t.span
  inUse : ∀ block, t.pool.InUse block → u.pool.InUse (ρ block)
  injective : ∀ block block', t.pool.InUse block → t.pool.InUse block' → ρ block = ρ block' →
    block = block'
  frame_eq : ∀ slot f, t.Live slot → t.frame slot = some f →
    u.frame (layout.renameSlot ρ slot) = some (f.rename layout ρ)
  occupants_eq : ∀ slot, t.Live slot →
    u.occupantsAt (layout.renameSlot ρ slot) = t.occupantsAt slot
  record_eq : ∀ e : Handle, u.locations[e]? = (t.locations[e]?).map (Location.rename layout ρ)

namespace Mirrors

section Fields

variable (h : Mirrors ρ t u)

include h

theorem maxDepth_eq : u.config.maxDepth = t.config.maxDepth := by
  rw [← h.config_eq]

theorem maxOccupants_eq : u.config.maxOccupants = t.config.maxOccupants := by
  rw [← h.config_eq]

theorem deterministic_eq : u.config.deterministic = t.config.deterministic := by
  rw [← h.config_eq]

theorem boxOf_eq (e : Handle) : u.boxOf e = t.boxOf e := by
  rw [boxOf, h.record_eq, Option.map_map]
  rfl

end Fields

variable {slot : Nat} {n : Node}

theorem live (h : Mirrors ρ t u) (hlive : t.Live slot) : u.Live (layout.renameSlot ρ slot) :=
  live_rename h.inUse hlive

theorem slot_inj (h : Mirrors ρ t u) {i j : Nat} (hi : t.Live i) (hj : t.Live j) :
    layout.renameSlot ρ i = layout.renameSlot ρ j ↔ i = j := renameSlot_inj h.injective hi hj

theorem root_iff (h : Mirrors ρ t u) (hlive : t.Live slot) :
    layout.renameSlot ρ slot = rootSlot ↔ slot = rootSlot := by
  have hiff := h.slot_inj hlive (live_root t)
  rwa [Layout.renameSlot_root] at hiff

theorem node_eq (h : Mirrors ρ t u) (hlive : t.Live slot) (hn : t.nodes[slot]? = some n) :
    u.nodes[layout.renameSlot ρ slot]? = some (n.rename layout ρ) := by
  have hframe := h.frame_eq slot n.bare hlive (frame_of_node hn)
  rw [node_of_frame hframe, h.occupants_eq slot hlive, occupantsAt_of_node hn]
  rfl

theorem allows (h : Mirrors ρ t u) {levels : Nat} (hallows : t.Allows levels slot n) :
    u.Allows levels (layout.renameSlot ρ slot) (n.rename layout ρ) := by
  refine ⟨h.live hallows.live, h.node_eq hallows.live hallows.node_eq, ?_⟩
  rw [h.maxDepth_eq]
  exact hallows.le

theorem fits_iff (h : Mirrors ρ t u) (hlive : t.Live slot) (f : Node) (box : Box) :
    Fits layout (layout.renameSlot ρ slot) (f.rename layout ρ) box ↔ Fits layout slot f box := by
  simp only [Fits, h.root_iff hlive, Node.rename_bounds, Node.rename_children,
    Option.map_eq_none_iff]

/-- A box goes down the same way in both trees. -/
theorem descend_eq (h : Mirrors ρ t u) (box : Box) {levels : Nat}
    (hallows : t.Allows levels slot n) :
    u.descend box levels (layout.renameSlot ρ slot) =
      (t.descend box levels slot).map (layout.renameSlot ρ) := by
  induction levels generalizing slot n with
  | zero =>
      have hleaf := hallows.leaf_of_zero h.left.arena
      unfold descend
      simp [node_eq_ok hallows.node_eq, node_eq_ok (h.allows hallows).node_eq, hleaf, bind,
        Except.bind, pure, Except.pure, Except.map]
  | succ levels ih =>
      have hn := node_eq_ok hallows.node_eq
      have hm := node_eq_ok (h.allows hallows).node_eq
      unfold descend
      cases hblock : n.children with
      | none => simp [hn, hm, hblock, bind, Except.bind, pure, Except.pure, Except.map]
      | some block =>
          cases hshared : layout.sharedChild? n.bounds.center box with
          | none =>
              simp [hn, hm, hblock, hshared, bind, Except.bind, pure, Except.pure, Except.map]
          | some child =>
              have hchild := Layout.sharedChild?_lt_arity hshared
              obtain ⟨m, hbelow, -⟩ := hallows.exists_child h.left.arena hblock hchild
              have hrest := ih hbelow
              rw [Layout.renameSlot_child hchild] at hrest
              simp only [hn, hm, hblock, hshared, Node.rename_children, Node.rename_bounds,
                Option.map_some, bind, Except.bind]
              exact hrest

theorem target_eq (h : Mirrors ρ t u) (box : Box) :
    u.target box = (t.target box).map (layout.renameSlot ρ) := by
  obtain ⟨n, hallows⟩ := Allows.root h.left.arena
  have hn := node_eq_ok hallows.node_eq
  have hm := node_eq_ok (h.allows hallows).node_eq
  have hdescend := h.descend_eq box hallows
  rw [Layout.renameSlot_root] at hm hdescend
  unfold target
  simp only [hn, hm, Node.rename_bounds, h.maxDepth_eq, bind, Except.bind]
  split_ifs
  · exact hdescend
  · exact congrArg Except.ok Layout.renameSlot_root.symm

theorem walk_eq (h : Mirrors ρ t u) {levels : Nat} (hallows : t.Allows levels slot n) :
    u.walk levels (layout.renameSlot ρ slot) =
      (t.walk levels slot).map (layout.renameSlot ρ) := by
  induction levels generalizing slot n with
  | zero => rfl
  | succ levels ih =>
      have hm := (h.allows hallows).node_eq
      cases hblock : n.children with
      | none =>
          rw [walk_leaf hallows.node_eq hblock, walk_leaf hm (by simp [hblock])]
          rfl
      | some block =>
          have hblock' : (n.rename layout ρ).children = some (ρ block) := by simp [hblock]
          rw [walk_divided hallows.node_eq hblock, walk_divided hm hblock',
            Layout.blockSlots_rename, List.map_cons, List.map_flatMap, List.flatMap_map]
          refine congrArg _ (List.flatMap_congr fun i hi => ?_)
          obtain ⟨child, hchild, rfl⟩ := Layout.mem_blockSlots.mp hi
          obtain ⟨m, hbelow, -⟩ := hallows.exists_child h.left.arena hblock hchild
          exact ih hbelow

theorem reachableSlots_eq (h : Mirrors ρ t u) :
    u.reachableSlots = t.reachableSlots.map (layout.renameSlot ρ) := by
  obtain ⟨n, hallows⟩ := Allows.root h.left.arena
  have hwalk := h.walk_eq hallows
  rw [Layout.renameSlot_root] at hwalk
  rw [reachableSlots, h.maxDepth_eq]
  exact hwalk

private theorem foldlM_congr {ε α β : Type} {f g : β → α → Except ε β} {items : List α}
    (hstep : ∀ a ∈ items, ∀ b, f b a = g b a) (b : β) : items.foldlM f b = items.foldlM g b := by
  induction items generalizing b with
  | nil => rfl
  | cons a items ih =>
      rw [List.foldlM_cons, List.foldlM_cons, hstep a List.mem_cons_self]
      refine congrArg _ (funext fun b' => ?_)
      exact ih (fun a' ha' => hstep a' (List.mem_cons_of_mem a ha')) b'

/-- What is done to the children in turn is the same in both trees if it is for each. -/
theorem foldlM_children_eq {ε β : Type} {block : Nat} {f g : β → Nat → Except ε β}
    (hchild : ∀ child < layout.arity, ∀ b, f b (layout.firstSlot (ρ block) + child) =
      g b (layout.firstSlot block + child)) (b : β) :
    (layout.blockSlots (ρ block)).foldlM f b = (layout.blockSlots block).foldlM g b := by
  rw [Layout.blockSlots_rename, List.foldlM_map]
  refine foldlM_congr (fun i hi b => ?_) b
  obtain ⟨child, hlt, rfl⟩ := Layout.mem_blockSlots.mp hi
  rw [Layout.renameSlot_child hlt]
  exact hchild child hlt b

section Queries

variable {σ : Type} [Sink σ]

theorem collectTested_eq (h : Mirrors ρ t u) (test : Box → Bool) (n : Node) (out : σ) :
    u.collectTested test (n.rename layout ρ) out = t.collectTested test n out := by
  have htested : u.tested test (n.rename layout ρ) = t.tested test n := by
    simp only [tested, Node.rename_occupants, h.boxOf_eq]
  exact (handsOver_collectTested u test _ σ out).trans
    (htested ▸ (handsOver_collectTested t test n σ out).symm)

theorem collectAll_eq (h : Mirrors ρ t u) {levels : Nat} (hallows : t.Allows levels slot n)
    (out : σ) :
    u.collectAll levels (layout.renameSlot ρ slot) out = t.collectAll levels slot out := by
  have hlists : (u.walk levels (layout.renameSlot ρ slot)).flatMap u.held =
      (t.walk levels slot).flatMap t.held := by
    rw [h.walk_eq hallows, List.flatMap_map]
    refine List.flatMap_congr fun i hi => ?_
    have hlive := (under_of_mem_walk hi).live h.left.arena hallows.live
    exact congrArg Array.toList (h.occupants_eq i hlive)
  have hleft := handsOver_collectAll h.left.arena hallows σ out
  have hright := handsOver_collectAll h.right.arena (h.allows hallows) σ out
  rw [hlists] at hright
  exact hright.trans hleft.symm

theorem collectRegion_eq (h : Mirrors ρ t u) (classify : Box → Containment) (test : Box → Bool)
    {levels : Nat} (hallows : t.Allows levels slot n) (out : σ) :
    u.collectRegion classify test levels (layout.renameSlot ρ slot) out =
      t.collectRegion classify test levels slot out := by
  induction levels generalizing slot n out with
  | zero =>
      have hleaf := hallows.leaf_of_zero h.left.arena
      unfold collectRegion
      simp only [visit_eq_ok hallows.node_eq, visit_eq_ok (h.allows hallows).node_eq,
        Node.rename_bounds, Node.rename_children, hleaf, Option.map_none, bind, Except.bind]
      cases classify n.bounds with
      | outside => rfl
      | inside => exact h.collectAll_eq hallows out
      | partly => rw [h.collectTested_eq]
  | succ levels ih =>
      unfold collectRegion
      simp only [visit_eq_ok hallows.node_eq, visit_eq_ok (h.allows hallows).node_eq,
        Node.rename_bounds, Node.rename_children, bind, Except.bind]
      cases classify n.bounds with
      | outside => rfl
      | inside => exact h.collectAll_eq hallows out
      | partly =>
          rw [h.collectTested_eq]
          cases t.collectTested test n out with
          | error halt => rfl
          | ok out =>
              cases hblock : n.children with
              | none => rfl
              | some block =>
                  refine foldlM_children_eq (fun child hlt out => ?_) out
                  obtain ⟨m, hbelow, -⟩ := hallows.exists_child h.left.arena hblock hlt
                  rw [← ih hbelow, Layout.renameSlot_child hlt]

theorem collectFromRoot_eq (h : Mirrors ρ t u) (classify : Box → Containment)
    (test : Box → Bool) (out : σ) :
    u.collectFromRoot classify test out = t.collectFromRoot classify test out := by
  obtain ⟨n, hallows⟩ := Allows.root h.left.arena
  have hm := (h.allows hallows).node_eq
  rw [Layout.renameSlot_root] at hm
  unfold collectFromRoot
  simp only [visit_eq_ok hallows.node_eq, visit_eq_ok hm, Node.rename_bounds,
    Node.rename_children, h.maxDepth_eq, bind, Except.bind]
  rw [h.collectTested_eq]
  cases t.collectTested test n out with
  | error halt => rfl
  | ok out =>
      cases hblock : n.children with
      | none => rfl
      | some block =>
          have hbelow (child : Nat) (hlt : child < layout.arity) :
              ∃ m, t.Allows (t.config.maxDepth - 1) (layout.firstSlot block + child) m := by
            obtain ⟨-, hall⟩ := exists_rootChildren h.left.arena hallows hblock
            obtain ⟨-, m, hm, -⟩ := hall _ (Layout.mem_blockSlots.mpr ⟨child, hlt, rfl⟩)
            exact ⟨m, hm⟩
          cases hverdict : classify n.bounds with
          | outside => simp only [Option.map_some]
          | inside =>
              simp only [Option.map_some]
              refine foldlM_children_eq (fun child hlt out => ?_) out
              obtain ⟨m, hm⟩ := hbelow child hlt
              rw [← h.collectAll_eq hm, Layout.renameSlot_child hlt]
          | partly =>
              simp only [Option.map_some]
              refine foldlM_children_eq (fun child hlt out => ?_) out
              obtain ⟨m, hm⟩ := hbelow child hlt
              rw [← h.collectRegion_eq classify test hm, Layout.renameSlot_child hlt]

theorem collectPath_eq (h : Mirrors ρ t u) (p : Vec3) {levels : Nat}
    (hallows : t.Allows levels slot n) (out : σ) :
    u.collectPath p levels (layout.renameSlot ρ slot) out = t.collectPath p levels slot out := by
  induction levels generalizing slot n out with
  | zero =>
      have hleaf := hallows.leaf_of_zero h.left.arena
      unfold collectPath
      simp only [visit_eq_ok hallows.node_eq, visit_eq_ok (h.allows hallows).node_eq,
        Node.rename_children, hleaf, Option.map_none, h.collectTested_eq, bind, Except.bind]
  | succ levels ih =>
      unfold collectPath
      simp only [visit_eq_ok hallows.node_eq, visit_eq_ok (h.allows hallows).node_eq,
        Node.rename_bounds, Node.rename_children, h.collectTested_eq, bind, Except.bind]
      cases t.collectTested (fun b => (layout.project b).containsPoint p) n out with
      | error halt => rfl
      | ok out =>
          cases hblock : n.children with
          | none => rfl
          | some block =>
              have hlt : layout.childIndex n.bounds.center p < layout.arity :=
                Layout.childIndex_lt_arity _ _
              obtain ⟨m, hbelow, -⟩ := hallows.exists_child h.left.arena hblock hlt
              have hrest := ih hbelow out
              rw [Layout.renameSlot_child hlt] at hrest
              exact hrest

/-- Both trees hand over the same entities in the same order to every receiver. -/
theorem collect_eq (h : Mirrors ρ t u) (region : Region) (out : σ) :
    u.collect region out = t.collect region out := by
  cases region with
  | point p =>
      obtain ⟨n, hallows⟩ := Allows.root h.left.arena
      have hm := (h.allows hallows).node_eq
      have hpath := h.collectPath_eq (layout.projectPoint p) hallows out
      rw [Layout.renameSlot_root] at hm hpath
      unfold collect
      simp only [visit_eq_ok hallows.node_eq, visit_eq_ok hm, Node.rename_bounds, hpath,
        h.maxDepth_eq, bind, Except.bind]
  | sphere center radius =>
      unfold collect
      simp only [h.collectFromRoot_eq]
  | box query =>
      unfold collect
      simp only [h.collectFromRoot_eq]
  | frustum f =>
      unfold collect
      simp only [h.collectFromRoot_eq, h.span_eq]

end Queries

theorem deepestBelow_eq (h : Mirrors ρ t u) {levels : Nat} (hallows : t.Allows levels slot n) :
    u.deepestBelow levels (layout.renameSlot ρ slot) = t.deepestBelow levels slot := by
  induction levels generalizing slot n with
  | zero =>
      have hleaf := hallows.leaf_of_zero h.left.arena
      unfold deepestBelow
      simp only [node_eq_ok hallows.node_eq, node_eq_ok (h.allows hallows).node_eq,
        Node.rename_children, Node.rename_depth, hleaf, Option.map_none, bind, Except.bind]
  | succ levels ih =>
      unfold deepestBelow
      simp only [node_eq_ok hallows.node_eq, node_eq_ok (h.allows hallows).node_eq,
        Node.rename_children, Node.rename_depth, bind, Except.bind]
      cases hblock : n.children with
      | none => rfl
      | some block =>
          refine foldlM_children_eq (fun child hlt deepest => ?_) n.depth
          obtain ⟨m, hbelow, -⟩ := hallows.exists_child h.left.arena hblock hlt
          rw [← ih hbelow, Layout.renameSlot_child hlt]

theorem tryEntityDepth_eq (h : Mirrors ρ t u) (e : Handle) :
    ∃ depth, t.tryEntityDepth e = .ok depth ∧ u.tryEntityDepth e = .ok depth := by
  unfold tryEntityDepth
  rw [h.record_eq]
  cases hrecord : t.locations[e]? with
  | none => exact ⟨none, rfl, rfl⟩
  | some location =>
      have hlive := h.left.placed.live e location.slot location.bounds hrecord
      obtain ⟨n, hn⟩ := h.left.arena.exists_node hlive
      have hm := node_eq_ok (h.node_eq hlive hn)
      refine ⟨some n.depth, ?_, ?_⟩
      · simp only [node_eq_ok hn, bind, Except.bind, pure, Except.pure]
      · simp only [Option.map_some, Location.rename, hm, bind, Except.bind, pure, Except.pure,
          Node.rename_depth]

end Mirrors

end Tree

end Broadphase
