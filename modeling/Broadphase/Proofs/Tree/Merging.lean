import Mathlib
import Broadphase.Tree.Removal
import Broadphase.Proofs.Tree.Contents
import Broadphase.Proofs.Tree.Ledger

/-!
Taking entities out and merging. A merge gives back a block of empty leaves: its
owner becomes a leaf, the slots of every other node in use keep their frames, and
no list of entities changes. Without pooling the array may lose its end, which
holds nothing in use. The merges that follow a removal go from a node to its parent.
-/

namespace Broadphase

namespace Tree

variable {layout : Layout} {t t' : Tree layout} {slot block : Nat}

/-- What a merge does to the tree. -/
structure Merges (t : Tree layout) (slot : Nat) (f : Node) (block : Nat) (t' : Tree layout) :
    Prop where
  config_eq : t'.config = t.config
  locations_eq : t'.locations = t.locations
  span_eq : t'.span = t.span
  free_eq : t.pool.free block = .ok t'.pool
  frees : t.pool.Frees block t'.pool
  size_eq : t'.nodes.size = layout.firstSlot t'.pool.highWater
  frame_slot : t'.frame slot = some { f with children := none }
  frame_other : ∀ i, i ≠ slot → t'.Live i → t'.frame i = t.frame i
  occupants_eq : ∀ i, t'.occupantsAt i = t.occupantsAt i

/-- A divided node whose children are empty leaves and whose own entities fit into a leaf. -/
structure Mergeable (t : Tree layout) (slot : Nat) (n : Node) (block : Nat) : Prop where
  live : t.Live slot
  node_eq : t.nodes[slot]? = some n
  children_eq : n.children = some block
  few : n.occupants.size ≤ t.config.maxOccupants
  child : ∀ child < layout.arity, ∃ m, t.nodes[layout.firstSlot block + child]? = some m ∧
    m.children = none ∧ m.occupants = #[]

namespace Mergeable

variable {n : Node}

theorem inUse (h : t.Mergeable slot n block) (harena : t.Arena) : t.pool.InUse block :=
  (harena.link slot n.bare block h.live (frame_of_node h.node_eq) h.children_eq).1

theorem not_mem (h : t.Mergeable slot n block) : slot ∉ layout.blockSlots block := by
  rw [Layout.mem_blockSlots]
  rintro ⟨child, hchild, rfl⟩
  obtain ⟨m, hm, hleaf, -⟩ := h.child child hchild
  obtain rfl : n = m := Option.some.inj (h.node_eq.symm.trans hm)
  cases hleaf.symm.trans h.children_eq

end Mergeable

/-- Detaching a block changes nothing but the parents of its nodes. -/
theorem exists_retireBlock (t : Tree layout) (block : Nat)
    (hchild : ∀ child < layout.arity, ∃ m, t.nodes[layout.firstSlot block + child]? = some m ∧
      m.occupants = #[]) :
    ∃ t', t.retireBlock block = .ok t' ∧ t.OnlyNodes t' ∧
      (∀ i, i ∉ layout.blockSlots block → t'.nodes[i]? = t.nodes[i]?) ∧
      ∀ i, t'.occupantsAt i = t.occupantsAt i := by
  have hlt (i : Nat) (hi : i ∈ layout.blockSlots block) : i < t.nodes.size := by
    obtain ⟨child, hlt, rfl⟩ := Layout.mem_blockSlots.mp hi
    obtain ⟨m, hm, -⟩ := hchild child hlt
    exact lt_size_of_node hm
  obtain ⟨t', hfold, honly, hrest, hput⟩ := exists_foldlM_setNode
    (fun t child => do
      let old ← t.node child
      let occupants := if t.config.pooling then old.occupants else #[]
      pure (t.setNode child { old with parent := none, occupants }))
    id
    (fun _ old => { old with
      parent := none
      occupants := if t.config.pooling then old.occupants else #[] })
    (layout.blockSlots block) t (by simpa using Layout.nodup_blockSlots block) hlt
    (fun u i m _ hu _ hm => by
      rw [id_eq] at hm
      simp only [node_eq_ok hm, hu.config_eq, bind, Except.bind, pure, Except.pure, id_eq])
  refine ⟨t', hfold, honly, fun i hi => hrest i (by simpa using hi), fun i => ?_⟩
  by_cases hi : i ∈ layout.blockSlots block
  · obtain ⟨child, hltchild, rfl⟩ := Layout.mem_blockSlots.mp hi
    obtain ⟨m, hm, hempty⟩ := hchild child hltchild
    have hput' := hput _ hi m hm
    rw [id_eq] at hput'
    rw [occupantsAt_of_node hput', occupantsAt_of_node hm, hempty, ite_self]
  · rw [occupantsAt, hrest i (by simpa using hi), occupantsAt]

/-- Dropping the end of the array keeps every slot in the pool's range. -/
theorem dropTail_spec (hsize : layout.firstSlot t.pool.highWater ≤ t.nodes.size)
    (hpooling : t.config.pooling = true → t.nodes.size = layout.firstSlot t.pool.highWater) :
    t.dropTail.config = t.config ∧ t.dropTail.pool = t.pool ∧
      t.dropTail.locations = t.locations ∧ t.dropTail.span = t.span ∧
      t.dropTail.nodes.size = layout.firstSlot t.pool.highWater ∧
      ∀ i, t.dropTail.nodes[i]? =
        if i < layout.firstSlot t.pool.highWater then t.nodes[i]? else none := by
  unfold dropTail
  cases hcase : t.config.pooling with
  | true =>
      rw [if_pos rfl]
      have heq := hpooling hcase
      refine ⟨rfl, rfl, rfl, rfl, heq, ?_⟩
      intro i
      split_ifs with hi
      · rfl
      · exact Array.getElem?_eq_none (by omega)
  | false =>
      rw [if_neg Bool.false_ne_true]
      refine ⟨rfl, rfl, rfl, rfl, ?_, ?_⟩
      · simp [hsize]
      · intro i
        simp only [Array.take_eq_extract, Array.getElem?_extract, Nat.zero_add, Nat.sub_zero]
        split_ifs with hi hi' hi' <;> first | rfl | omega

theorem exists_merge (h : t.WellFormed) {n : Node} (hmerge : t.Mergeable slot n block) :
    ∃ t', t.merge slot block = .ok (t', .merged slot n.depth block) ∧
      t.Merges slot n.bare block t' := by
  have huse := hmerge.inUse h.arena
  obtain ⟨pool, hfree, hfrees⟩ := BlockPool.exists_free h.arena.pool_sound huse
  obtain ⟨retired, hretire, honly, hrest, hoccupants⟩ :=
    exists_retireBlock t block fun child hlt => by
      obtain ⟨m, hm, -, hempty⟩ := hmerge.child child hlt
      exact ⟨m, hm, hempty⟩
  have hnode : retired.nodes[slot]? = some n := (hrest slot hmerge.not_mem).trans hmerge.node_eq
  have hlt := lt_size_of_node hnode
  -- the node is a leaf again and the block is released, but the array is still whole
  let released : Tree layout := { retired.setNode slot { n with children := none } with pool }
  have hget (i : Nat) : released.nodes[i]? =
      if i = slot then some { n with children := none } else retired.nodes[i]? :=
    getElem?_setNode hlt i
  have hsize : released.nodes.size = layout.firstSlot t.pool.highWater :=
    size_setNode.trans (honly.size_eq.trans h.arena.size_eq)
  have hpooling (hpool : released.config.pooling = true) :
      released.nodes.size = layout.firstSlot released.pool.highWater := by
    have hsame : pool.highWater = t.pool.highWater := hfrees.highWater_eq (by
      rw [h.arena.pooling_eq, ← honly.config_eq]
      exact hpool)
    rw [hsize, ← hsame]
  obtain ⟨hconfig, hpool, hlocations, hspan, hsize', hnodes⟩ :=
    dropTail_spec (hsize ▸ Layout.firstSlot_mono hfrees.highWater_le) hpooling
  have hfrees' : t.pool.Frees block released.dropTail.pool := hpool ▸ hfrees
  have hbelow {i : Nat} (hi : released.dropTail.Live i) :
      released.dropTail.nodes[i]? = released.nodes[i]? := by
    rw [hnodes, if_pos (hpool ▸ hi.lt_firstSlot)]
  have hslot := (live_iff_of_frees hfrees' slot).mpr ⟨hmerge.live, hmerge.not_mem⟩
  have hkept : released.dropTail.nodes[slot]? = some { n with children := none } := by
    rw [hbelow hslot, hget, if_pos rfl]
  refine ⟨released.dropTail, ?_, hconfig.trans honly.config_eq,
    hlocations.trans honly.locations_eq, hspan.trans honly.span_eq,
    hfree.trans (congrArg _ hpool.symm), hfrees',
    hsize'.trans (congrArg _ (congrArg _ hpool.symm)), frame_of_node hkept, ?_, ?_⟩
  · have hrelease : (retired.setNode slot { n with children := none }).releaseBlock block =
        .ok released := by
      unfold releaseBlock
      rw [pool_setNode, honly.pool_eq, hfree]
    unfold merge
    rw [hretire]
    simp only [bind, Except.bind, node_eq_ok hnode, hrelease, node_eq_ok hkept, pure, Except.pure]
  · intro i hi hlive
    have hin := ((live_iff_of_frees hfrees' i).mp hlive).2
    rw [frame, hbelow hlive, hget, if_neg hi, hrest i hin, frame]
  · intro i
    have hwhole : released.occupantsAt i = t.occupantsAt i := by
      rw [← hoccupants, occupantsAt, hget, occupantsAt]
      split_ifs with hi
      · rw [hi, hnode]
        rfl
      · rfl
    rw [← hwhole, occupantsAt, hnodes, occupantsAt]
    split_ifs with hi
    · rfl
    · -- what is cut off was not in use, or belongs to the merged block
      change #[] = released.occupantsAt i
      rw [hwhole]
      by_cases hlive : t.Live i
      · have hin : i ∈ layout.blockSlots block := by
          by_contra hnot
          exact hi (hpool ▸ ((live_iff_of_frees hfrees' i).mpr ⟨hlive, hnot⟩).lt_firstSlot)
        obtain ⟨child, hchild, rfl⟩ := Layout.mem_blockSlots.mp hin
        obtain ⟨m, hm, -, hempty⟩ := hmerge.child child hchild
        rw [occupantsAt_of_node hm, hempty]
      · exact (h.placed.occupantsAt_eq_empty hlive).symm

namespace Merges

variable {f : Node}

theorem frame_of_live (h : t.Merges slot f block t') (hf : t.frame slot = some f) {i : Nat}
    {g : Node} (hlive : t'.Live i) (hg : t.frame i = some g) :
    ∃ g', t'.frame i = some g' ∧ g'.bounds = g.bounds ∧ g'.depth = g.depth ∧
      g'.parent = g.parent ∧ (i ≠ slot → g' = g) := by
  by_cases hi : i = slot
  · subst hi
    obtain rfl : f = g := Option.some.inj (hf.symm.trans hg)
    exact ⟨_, h.frame_slot, rfl, rfl, rfl, fun hne => absurd rfl hne⟩
  · exact ⟨g, (h.frame_other i hi hlive).trans hg, rfl, rfl, rfl, fun _ => rfl⟩

/-- The frame of a slot in use after a merge is an old one, that of the merged node
without its children. -/
theorem frame_cases (h : t.Merges slot f block t') {i : Nat} {g : Node} (hlive : t'.Live i)
    (hg : t'.frame i = some g) :
    (i = slot ∧ g = { f with children := none }) ∨ (i ≠ slot ∧ t.Live i ∧ t.frame i = some g) := by
  by_cases hi : i = slot
  · subst hi
    exact Or.inl ⟨rfl, Option.some.inj (hg.symm.trans h.frame_slot)⟩
  · exact Or.inr ⟨hi, ((live_iff_of_frees h.frees i).mp hlive).1,
      (h.frame_other i hi hlive).symm.trans hg⟩

theorem arena {n : Node} (h : t.Merges slot n.bare block t') (harena : t.Arena)
    (hmerge : t.Mergeable slot n block) : t'.Arena := by
  have hf := frame_of_node hmerge.node_eq
  have hworld : t'.world = t.world := by rw [world, world, h.config_eq]
  have hslot : t'.Live slot := (live_iff_of_frees h.frees slot).mpr ⟨hmerge.live, hmerge.not_mem⟩
  refine ⟨hworld ▸ harena.acceptable, h.frees.sound, ?_, h.size_eq, ?_, ?_, ?_, ?_, ?_⟩
  · rw [h.frees.pooling, h.config_eq]
    exact harena.pooling_eq
  · obtain ⟨g, hg, hbounds, hzero, hparent⟩ := harena.root
    obtain ⟨g', hg', hbounds', hdepth', hparent', -⟩ := h.frame_of_live hf (live_root t') hg
    exact ⟨g', hg', by rw [hbounds', hbounds, hworld], by rw [hdepth', hzero],
      by rw [hparent', hparent]⟩
  · intro i g hi hg
    rw [h.config_eq]
    rcases h.frame_cases hi hg with ⟨-, rfl⟩ | ⟨-, hold, hg⟩
    · exact harena.depth_le slot n.bare hmerge.live hf
    · exact harena.depth_le i g hold hg
  · intro i g hi hg
    rw [hworld]
    rcases h.frame_cases hi hg with ⟨-, rfl⟩ | ⟨-, hold, hg⟩
    · exact harena.tame slot n.bare hmerge.live hf
    · exact harena.tame i g hold hg
  · intro i g other hi hg hother
    rcases h.frame_cases hi hg with ⟨-, rfl⟩ | ⟨hne, hold, hg⟩
    · cases hother
    · obtain ⟨huse, hlink⟩ := harena.link i g other hold hg hother
      have hdifferent : other ≠ block := by
        rintro rfl
        exact hne (harena.owner_unique hold hmerge.live hg hf hother hmerge.children_eq)
      have huse' := (h.frees.inUse_iff other).mpr ⟨huse, hdifferent⟩
      refine ⟨huse', ?_⟩
      intro child hchild
      obtain ⟨c, hc, hparent, hcdepth, hcbounds⟩ := hlink child hchild
      obtain ⟨c', hc', hbounds', hdepth', hparent', -⟩ :=
        h.frame_of_live hf (live_child huse' hchild) hc
      exact ⟨c', hc', hparent'.trans hparent, by rw [hdepth', hcdepth],
        by rw [hbounds', hcbounds]⟩
  · intro other huse
    obtain ⟨hold, hdifferent⟩ := (h.frees.inUse_iff other).mp huse
    obtain ⟨i, g, hi, hg, hother⟩ := harena.owner other hold
    have hne : i ≠ slot := by
      rintro rfl
      obtain rfl : n.bare = g := Option.some.inj (hf.symm.trans hg)
      exact hdifferent (Option.some.inj (hother.symm.trans hmerge.children_eq))
    have hin : i ∉ layout.blockSlots block := by
      rw [Layout.mem_blockSlots]
      rintro ⟨child, hchild, rfl⟩
      obtain ⟨m, hm, hleaf, -⟩ := hmerge.child child hchild
      obtain rfl : m.bare = g := Option.some.inj ((frame_of_node hm).symm.trans hg)
      cases hleaf.symm.trans hother
    have hlive := (live_iff_of_frees h.frees i).mpr ⟨hi, hin⟩
    exact ⟨i, g, hlive, (h.frame_other i hne hlive).trans hg, hother⟩

theorem wellFormed {n : Node} (h : t.Merges slot n.bare block t') (hwell : t.WellFormed)
    (hmerge : t.Mergeable slot n block) : t'.WellFormed := by
  have hlive (e : Handle) (i : Nat) (box : Box) (hrecord : t'.locations[e]? = some ⟨i, box⟩) :
      t'.Live i := by
    rw [h.locations_eq] at hrecord
    refine (live_iff_of_frees h.frees i).mpr ⟨hwell.placed.live e i box hrecord, ?_⟩
    rw [Layout.mem_blockSlots]
    rintro ⟨child, hchild, rfl⟩
    obtain ⟨m, hm, -, hempty⟩ := hmerge.child child hchild
    have hmem := (hwell.placed.stored_iff e _).mpr ⟨box, hrecord⟩
    rw [occupantsAt_of_node hm, hempty] at hmem
    exact Array.not_mem_empty e hmem
  refine ⟨h.arena hwell.arena hmerge, ?_, ?_, hlive, ?_⟩
  · intro e i
    rw [h.occupants_eq, h.locations_eq]
    exact hwell.placed.stored_iff e i
  · intro i
    rw [h.occupants_eq]
    exact hwell.placed.nodup i
  · intro e i box f hrecord hf
    have hi := hlive e i box hrecord
    rw [h.locations_eq] at hrecord
    rcases h.frame_cases hi hf with ⟨rfl, rfl⟩ | ⟨-, -, hold⟩
    · rcases hwell.placed.fits e i box n.bare hrecord (frame_of_node hmerge.node_eq) with
        hroot | ⟨hin, -⟩
      · exact Or.inl hroot
      · exact Or.inr ⟨hin, Or.inl rfl⟩
    · exact hwell.placed.fits e i box f hrecord hold

/-- The parent of the merged node is in use as before, one level above. -/
theorem exists_above {n : Node} (h : t.Merges slot n.bare block t') (hwell : t'.WellFormed)
    (hmerge : t.Mergeable slot n block) :
    ∃ n' : Node, t'.nodes[slot]? = some n' ∧ n'.parent = n.parent ∧
      ∀ above ∈ n'.parent, t'.Live above ∧
        ∀ m : Node, t'.nodes[above]? = some m → n.depth = m.depth + 1 := by
  have hlive := (live_iff_of_frees h.frees slot).mpr ⟨hmerge.live, hmerge.not_mem⟩
  obtain ⟨n', hn', hbare⟩ := exists_node_of_frame h.frame_slot
  have hdepth : n'.depth = n.depth := by
    rw [← Node.bare_depth, ← hbare, Node.bare_depth]
  have hparent : n'.parent = n.parent := by
    rw [← Node.bare_parent, ← hbare, Node.bare_parent]
  refine ⟨n', hn', hparent, ?_⟩
  intro above habove
  obtain ⟨hup, hlevel⟩ := hwell.arena.live_parent hlive (frame_of_node hn') habove
  refine ⟨hup, ?_⟩
  intro m hm
  rw [← hdepth]
  exact hlevel m.bare (frame_of_node hm)

end Merges

theorem exists_blockNodes (slots : List Nat) (hslots : ∀ i ∈ slots, ∃ n, t.nodes[i]? = some n) :
    ∃ ns, slots.mapM t.node = .ok ns ∧ ∀ n, n ∈ ns ↔ ∃ i ∈ slots, t.nodes[i]? = some n := by
  induction slots with
  | nil => exact ⟨[], rfl, by simp⟩
  | cons i slots ih =>
      obtain ⟨n, hn⟩ := hslots i List.mem_cons_self
      obtain ⟨ns, hmap, hmem⟩ := ih fun j hj => hslots j (List.mem_cons_of_mem i hj)
      refine ⟨n :: ns, ?_, ?_⟩
      · rw [List.mapM_cons, node_eq_ok hn, hmap]
        rfl
      · intro m
        simp [hmem, hn, eq_comm]

/-- Whether a node can merge is decided without a fault. -/
theorem exists_canMerge (harena : t.Arena) {n : Node} (hlive : t.Live slot)
    (hn : t.nodes[slot]? = some n) (hblock : n.children = some block) :
    ∃ can, t.canMerge slot = .ok can ∧ (can = true ↔ t.Mergeable slot n block) := by
  obtain ⟨huse, hlink⟩ := harena.link slot n.bare block hlive (frame_of_node hn) hblock
  unfold canMerge
  rw [node_eq_ok hn]
  by_cases hcrowded : t.config.maxOccupants < n.occupants.size
  · refine ⟨false, ?_, iff_of_false Bool.false_ne_true fun h => absurd h.few (by omega)⟩
    simp [hblock, hcrowded, bind, Except.bind, pure, Except.pure]
  · obtain ⟨ns, hmap, hmem⟩ := exists_blockNodes (layout.blockSlots block) fun i hi => by
      obtain ⟨child, hchild, rfl⟩ := Layout.mem_blockSlots.mp hi
      exact harena.exists_node (live_child huse hchild)
    refine ⟨ns.all fun child => child.isLeaf && child.occupants.isEmpty, ?_, ?_⟩
    · simp only [hblock, hcrowded, if_false, bind, Except.bind, blockNodes, hmap, pure, Except.pure]
    · simp only [List.all_eq_true, Node.isLeaf, Bool.and_eq_true, Option.isNone_iff_eq_none,
        Array.isEmpty_iff]
      constructor
      · intro hall
        refine ⟨hlive, hn, hblock, not_lt.mp hcrowded, ?_⟩
        intro child hchild
        obtain ⟨m, hm⟩ := harena.exists_node (live_child huse hchild)
        exact ⟨m, hm, hall m
          ((hmem m).mpr ⟨_, Layout.mem_blockSlots.mpr ⟨child, hchild, rfl⟩, hm⟩)⟩
      · intro hmerge m hm
        obtain ⟨i, hi, hm⟩ := (hmem m).mp hm
        obtain ⟨child, hchild, rfl⟩ := Layout.mem_blockSlots.mp hi
        obtain ⟨m', hm', hempty⟩ := hmerge.child child hchild
        obtain rfl : m = m' := Option.some.inj (hm.symm.trans hm')
        exact hempty

/-- Merges on the way up from a slot, each of a divided node and the next one of its parent.
The root has no parent, so the way ends there at the latest. -/
inductive Ascends (t : Tree layout) : Option Nat → List TreeEvent → Prop where
  | stop (slot : Option Nat) : Ascends t slot []
  | merge {slot block : Nat} {f : Node} {events : List TreeEvent} : t.Live slot →
      t.frame slot = some f → f.children = some block → Ascends t f.parent events →
        Ascends t (some slot) (.merged slot f.depth block :: events)

theorem Ascends.congr (hlive : ∀ i, t'.Live i → t.Live i) (hframe : ∀ i, t'.frame i = t.frame i)
    {start : Option Nat} {events : List TreeEvent} (h : t'.Ascends start events) :
    t.Ascends start events := by
  induction h with
  | stop start => exact .stop start
  | merge hslot hf hchildren _ ih =>
      exact .merge (hlive _ hslot) ((hframe _).symm.trans hf) hchildren ih

/-- A way up after a merge is one before it. -/
theorem Merges.ascends {f : Node} (h : t.Merges slot f block t') {start : Option Nat}
    {events : List TreeEvent} (hrest : t'.Ascends start events) : t.Ascends start events := by
  induction hrest with
  | stop start => exact .stop start
  | merge hlive hf hchildren _ ih =>
      rcases h.frame_cases hlive hf with ⟨-, rfl⟩ | ⟨-, hold, hf⟩
      · cases hchildren
      · exact .merge hold hf hchildren ih

/-- Nodes take back their children one after the other on the way up from a slot, up to the
first one that cannot. -/
inductive Mergers : Tree layout → Option Nat → List TreeEvent → Tree layout → Prop where
  | root (t : Tree layout) : Mergers t none [] t
  | stop {t : Tree layout} {slot : Nat} {n : Node} : t.Live slot → t.nodes[slot]? = some n →
      (∀ block, ¬ t.Mergeable slot n block) → Mergers t (some slot) [] t
  | merge {t merged t' : Tree layout} {slot block : Nat} {n : Node} {events : List TreeEvent} :
      t.Mergeable slot n block → t.Merges slot n.bare block merged →
      Mergers merged n.parent events t' →
      Mergers t (some slot) (.merged slot n.depth block :: events) t'

/-- What the merges on the way up from a slot do: the invariant is kept and no entity is
concerned. -/
structure Joins (t : Tree layout) (start : Option Nat) (events : List TreeEvent)
    (t' : Tree layout) : Prop where
  wellFormed : t'.WellFormed
  config_eq : t'.config = t.config
  span_eq : t'.span = t.span
  locations_eq : t'.locations = t.locations
  ascends : t.Ascends start events
  ledger : Ledger t.pool events t'.pool

theorem Mergers.joins {start : Option Nat} {events : List TreeEvent}
    (h : Mergers t start events t') (hwell : t.WellFormed) : t.Joins start events t' := by
  induction h with
  | root t => exact ⟨hwell, rfl, rfl, rfl, .stop none, .nil t.pool⟩
  | @stop t => exact ⟨hwell, rfl, rfl, rfl, .stop _, .nil t.pool⟩
  | @merge t _ _ slot block n events hmerge hmerges _ ih =>
      have hrest := ih (hmerges.wellFormed hwell hmerge)
      have hascends : t.Ascends (some slot) (.merged slot n.bare.depth block :: events) :=
        .merge hmerge.live (frame_of_node hmerge.node_eq) hmerge.children_eq
          (hmerges.ascends hrest.ascends)
      exact ⟨hrest.wellFormed, hrest.config_eq.trans hmerges.config_eq,
        hrest.span_eq.trans hmerges.span_eq, hrest.locations_eq.trans hmerges.locations_eq,
        hascends, .give hwell.arena.pool_sound (hmerge.inUse hwell.arena) hmerges.free_eq hrest.ledger⟩

/-- Merging upward does not fail. -/
theorem exists_mergeUpward (levels : Nat) {t : Tree layout} (h : t.WellFormed)
    (slot : Option Nat) (hlive : ∀ i ∈ slot, t.Live i)
    (hlevels : ∀ i ∈ slot, ∀ n, t.nodes[i]? = some n → n.children = none ∨ n.depth < levels) :
    ∃ t' events, t.mergeUpward levels slot = .ok (t', events) ∧ Mergers t slot events t' := by
  cases slot with
  | none => exact ⟨t, [], by unfold mergeUpward; rfl, .root t⟩
  | some i =>
      have hi := hlive i rfl
      obtain ⟨n, hn⟩ := h.arena.exists_node hi
      cases hblock : n.children with
      | none =>
          refine ⟨t, [], ?_, .stop hi hn fun block hmerge => ?_⟩
          · unfold mergeUpward
            simp only [node_eq_ok hn, hblock, bind, Except.bind, pure, Except.pure]
          · cases hblock.symm.trans hmerge.children_eq
      | some block =>
          obtain ⟨can, hcan, hmergeable⟩ := exists_canMerge h.arena hi hn hblock
          cases can with
          | false =>
              refine ⟨t, [], ?_, .stop hi hn fun other hmerge => ?_⟩
              · unfold mergeUpward
                simp [node_eq_ok hn, hblock, hcan, bind, Except.bind, pure, Except.pure]
              · obtain rfl := Option.some.inj (hblock.symm.trans hmerge.children_eq)
                exact Bool.false_ne_true (hmergeable.mpr hmerge)
          | true =>
              have hmerge := hmergeable.mp rfl
              obtain ⟨merged, heq, hmerges⟩ := exists_merge h hmerge
              have hwell := hmerges.wellFormed h hmerge
              obtain ⟨n', hn', hparent, hup⟩ := hmerges.exists_above hwell hmerge
              have hlt := (hlevels i rfl n hn).resolve_left (by simp [hblock])
              cases levels with
              | zero => exact absurd hlt (Nat.not_lt_zero _)
              | succ levels =>
                  obtain ⟨t', events, hrest, hmergers⟩ := exists_mergeUpward levels hwell n'.parent
                    (fun above habove => (hup above habove).1)
                    (fun above habove m hm => by
                      have hlevel := (hup above habove).2 m hm
                      exact Or.inr (by omega))
                  rw [hparent] at hmergers
                  refine ⟨t', .merged i n.depth block :: events, ?_,
                    .merge hmerge hmerges hmergers⟩
                  unfold mergeUpward
                  simp only [node_eq_ok hn, hblock, hcan, heq, node_eq_ok hn', hrest, bind,
                    Except.bind, pure, Except.pure, if_true]

/-- Where merging starts after a node has lost an entity. -/
theorem live_mergeStart (harena : t.Arena) {f : Node} (hlive : t.Live slot)
    (hf : t.frame slot = some f) {i : Nat} (hi : i ∈ if f.isLeaf then f.parent else some slot) :
    t.Live i := by
  split at hi
  · exact (harena.live_parent hlive hf hi).1
  · obtain rfl : slot = i := Option.some.inj hi
    exact hlive

/-- What taking an entity out does, if the tree holds it: its node loses it, and then the
parent of a leaf or a divided node itself may take back its children. -/
inductive Removes (t : Tree layout) (e : Handle) : List TreeEvent → Tree layout → Prop where
  | untracked : t.locations[e]? = none → Removes t e [] t
  | stored {slot : Nat} {box : Box} {n : Node} {events : List TreeEvent} {t' : Tree layout} :
      t.locations[e]? = some ⟨slot, box⟩ → t.nodes[slot]? = some n →
      Mergers (t.withdraw slot n e) (if n.isLeaf then n.parent else some slot) events t' →
      Removes t e events t'

/-- Taking an entity out does not fail. -/
theorem exists_removes (h : t.WellFormed) (e : Handle) :
    ∃ t' events, t.remove e = .ok (t', events) ∧ t.Removes e events t' := by
  unfold remove
  cases hrecord : t.locations[e]? with
  | none => exact ⟨t, [], rfl, .untracked hrecord⟩
  | some location =>
      obtain ⟨slot, box⟩ := location
      have hlive := h.placed.live e slot box hrecord
      obtain ⟨n, hn⟩ := h.arena.exists_node hlive
      have hwell := h.withdraw hn hrecord
      have hframe : (t.withdraw slot n e).frame slot = some n.bare :=
        (frame_setNode_occupants (t := { t with locations := t.locations.erase e }) hn _ slot).trans
          (frame_of_node hn)
      have hstart (i : Nat) (hi : i ∈ if n.isLeaf then n.parent else some slot) :
          (t.withdraw slot n e).Live i := live_mergeStart hwell.arena hlive hframe hi
      obtain ⟨t', events, hmerge, hmergers⟩ :=
        exists_mergeUpward t.config.maxDepth hwell (if n.isLeaf then n.parent else some slot) hstart
          fun i hi m hm => by
            have hlt := hwell.arena.depth_lt (hstart i hi) (frame_of_node hm)
            exact hlt
      refine ⟨t', events, ?_, .stored hrecord hn hmergers⟩
      have hn' : ({ t with locations := t.locations.erase e } : Tree layout).node slot = .ok n :=
        node_eq_ok hn
      simp only [hn', bind, Except.bind]
      exact hmerge

/-- Taking an entity out keeps the invariant. -/
theorem Removes.spec {e : Handle} {events : List TreeEvent} (h : t.Removes e events t')
    (hwell : t.WellFormed) : t'.WellFormed ∧ t.Tracks e none t' ∧ t'.span = t.span ∧
      (∃ start, t.Ascends start events) ∧ Ledger t.pool events t'.pool := by
  cases h with
  | untracked hrecord =>
      refine ⟨hwell, ⟨rfl, ?_⟩, rfl, ⟨none, .stop none⟩, .nil t.pool⟩
      intro other
      split_ifs with heq
      · rw [heq, boxOf_eq_none, hrecord]
      · rfl
  | @stored slot box n _ _ hrecord hn hmergers =>
      have hjoins := hmergers.joins (hwell.withdraw hn hrecord)
      have hframes (i : Nat) : (t.withdraw slot n e).frame i = t.frame i :=
        frame_setNode_occupants (t := { t with locations := t.locations.erase e }) hn _ i
      have hlives (i : Nat) (hi : (t.withdraw slot n e).Live i) : t.Live i := hi
      refine ⟨hjoins.wellFormed, ⟨hjoins.config_eq, ?_⟩, hjoins.span_eq,
        ⟨_, hjoins.ascends.congr hlives hframes⟩, hjoins.ledger⟩
      intro other
      rw [boxOf, hjoins.locations_eq]
      exact boxOf_withdraw t slot n e other

end Tree

end Broadphase
