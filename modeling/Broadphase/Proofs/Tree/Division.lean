import Mathlib
import Broadphase.Tree.Placement
import Broadphase.Proofs.Tree.Contents
import Broadphase.Proofs.Tree.Ledger

/-!
Dividing a leaf. The block of the children is taken from the pool and its slots
are laid out, then the entities that a child holds whole move there. The laying
out is judged on the frames alone, and the moves on the lists and records alone. A
division may lead to others below it, all of them above the greatest depth.
-/

namespace Broadphase

namespace Tree

variable {layout : Layout} {t t' : Tree layout}

/-- What a division does to the frames: the divided node gets the block for
children, and the block consists of leaves. -/
structure Divides (t : Tree layout) (slot : Nat) (f : Node) (block : Nat) (t' : Tree layout) :
    Prop where
  config_eq : t'.config = t.config
  alloc_eq : t.pool.alloc = (block, t'.pool)
  takes : t.pool.Takes block t'.pool
  size_eq : t'.nodes.size = layout.firstSlot t'.pool.highWater
  frame_slot : t'.frame slot = some { f with children := some block }
  frame_child : ∀ child < layout.arity, t'.frame (layout.firstSlot block + child) =
    some (.leaf (layout.childBounds f.bounds f.bounds.center child) (f.depth + 1) (some slot))
  frame_other : ∀ i, i ≠ slot → i ∉ layout.blockSlots block → t'.frame i = t.frame i

namespace Divides

variable {slot block : Nat} {f : Node}

theorem live_iff (h : t.Divides slot f block t') (i : Nat) :
    t'.Live i ↔ t.Live i ∨ i ∈ layout.blockSlots block := by
  rw [Layout.mem_blockSlots]
  constructor
  · rintro (rfl | ⟨block', child, huse, hchild, rfl⟩)
    · exact Or.inl (live_root t)
    · rcases (h.takes.inUse_iff block').mp huse with huse | rfl
      · exact Or.inl (live_child huse hchild)
      · exact Or.inr ⟨child, hchild, rfl⟩
  · rintro ((rfl | ⟨block', child, huse, hchild, rfl⟩) | ⟨child, hchild, rfl⟩)
    · exact live_root t'
    · exact live_child ((h.takes.inUse_iff block').mpr (Or.inl huse)) hchild
    · exact live_child ((h.takes.inUse_iff block).mpr (Or.inr rfl)) hchild

theorem not_mem_of_live (h : t.Divides slot f block t') {i : Nat} (hlive : t.Live i) :
    i ∉ layout.blockSlots block := by
  rw [Layout.mem_blockSlots]
  rintro ⟨child, hchild, rfl⟩
  exact h.takes.free_before ((live_child_iff hchild).mp hlive)

/-- The frame of a slot that was in use: only the divided node's children differ. -/
theorem frame_of_live (h : t.Divides slot f block t') (hf : t.frame slot = some f) {i : Nat}
    {g : Node} (hlive : t.Live i) (hg : t.frame i = some g) :
    ∃ g', t'.frame i = some g' ∧ g'.bounds = g.bounds ∧ g'.depth = g.depth ∧
      g'.parent = g.parent ∧ (i ≠ slot → g' = g) := by
  by_cases hi : i = slot
  · subst hi
    obtain rfl : f = g := Option.some.inj (hf.symm.trans hg)
    exact ⟨_, h.frame_slot, rfl, rfl, rfl, fun hne => absurd rfl hne⟩
  · exact ⟨g, (h.frame_other i hi (h.not_mem_of_live hlive)).trans hg, rfl, rfl, rfl, fun _ => rfl⟩

/-- The frame of a slot in use after a division is that of an old slot, of the
divided node or of a new child. -/
theorem frame_cases (h : t.Divides slot f block t') {i : Nat} {g : Node} (hlive : t'.Live i)
    (hg : t'.frame i = some g) :
    (i = slot ∧ g = { f with children := some block }) ∨
      (∃ child < layout.arity, i = layout.firstSlot block + child ∧
        g = .leaf (layout.childBounds f.bounds f.bounds.center child) (f.depth + 1) (some slot)) ∨
      (i ≠ slot ∧ t.Live i ∧ t.frame i = some g) := by
  by_cases hi : i = slot
  · subst hi
    exact Or.inl ⟨rfl, Option.some.inj (hg.symm.trans h.frame_slot)⟩
  · rcases (h.live_iff i).mp hlive with hold | hnew
    · exact Or.inr (Or.inr ⟨hi, hold, (h.frame_other i hi (h.not_mem_of_live hold)).symm.trans hg⟩)
    · obtain ⟨child, hchild, rfl⟩ := Layout.mem_blockSlots.mp hnew
      exact Or.inr (Or.inl ⟨child, hchild, rfl,
        Option.some.inj (hg.symm.trans (h.frame_child child hchild))⟩)

/-- Dividing a leaf that is not too deep keeps the invariant of the array. -/
theorem arena (h : t.Divides slot f block t') (harena : t.Arena) (hlive : t.Live slot)
    (hf : t.frame slot = some f) (hleaf : f.children = none)
    (hdepth : f.depth < t.config.maxDepth) : t'.Arena := by
  have hworld : t'.world = t.world := by rw [world, world, h.config_eq]
  have hnew : t'.pool.InUse block := (h.takes.inUse_iff block).mpr (Or.inr rfl)
  have htame := harena.tame slot f hlive hf
  refine ⟨hworld ▸ harena.acceptable, h.takes.sound, ?_, h.size_eq, ?_, ?_, ?_, ?_, ?_⟩
  · rw [h.takes.pooling, h.config_eq]
    exact harena.pooling_eq
  · obtain ⟨g, hg, hbounds, hzero, hparent⟩ := harena.root
    obtain ⟨g', hg', hbounds', hdepth', hparent', -⟩ := h.frame_of_live hf (live_root t) hg
    exact ⟨g', hg', by rw [hbounds', hbounds, hworld], by rw [hdepth', hzero],
      by rw [hparent', hparent]⟩
  · intro i g hi hg
    rw [h.config_eq]
    rcases h.frame_cases hi hg with ⟨-, rfl⟩ | ⟨child, -, -, rfl⟩ | ⟨-, hold, hg⟩
    · exact hdepth.le
    · exact hdepth
    · exact harena.depth_le i g hold hg
  · intro i g hi hg
    rw [hworld]
    rcases h.frame_cases hi hg with ⟨-, rfl⟩ | ⟨child, -, -, rfl⟩ | ⟨-, hold, hg⟩
    · exact htame
    · exact Layout.tame_childBounds htame child
    · exact harena.tame i g hold hg
  · intro i g other hi hg hother
    rcases h.frame_cases hi hg with ⟨rfl, rfl⟩ | ⟨child, -, -, rfl⟩ | ⟨hne, hold, hg⟩
    · obtain rfl : block = other := Option.some.inj hother
      exact ⟨hnew, fun child hchild => ⟨_, h.frame_child child hchild, rfl, rfl, rfl⟩⟩
    · cases hother
    · obtain ⟨huse, hlink⟩ := harena.link i g other hold hg hother
      refine ⟨(h.takes.inUse_iff other).mpr (Or.inl huse), ?_⟩
      intro child hchild
      obtain ⟨c, hc, hparent, hcdepth, hcbounds⟩ := hlink child hchild
      obtain ⟨c', hc', hbounds', hdepth', hparent', -⟩ :=
        h.frame_of_live hf (live_child huse hchild) hc
      exact ⟨c', hc', hparent'.trans hparent, by rw [hdepth', hcdepth],
        by rw [hbounds', hcbounds]⟩
  · intro other huse
    rcases (h.takes.inUse_iff other).mp huse with hold | rfl
    · obtain ⟨i, g, hi, hg, hother⟩ := harena.owner other hold
      obtain ⟨g', hg', -, -, -, hsame⟩ := h.frame_of_live hf hi hg
      have hne : i ≠ slot := by
        rintro rfl
        obtain rfl : f = g := Option.some.inj (hf.symm.trans hg)
        cases hleaf.symm.trans hother
      exact ⟨i, g', (h.live_iff i).mpr (Or.inl hi), hg', hsame hne ▸ hother⟩
    · exact ⟨slot, _, (h.live_iff slot).mpr (Or.inl hlive), h.frame_slot, rfl⟩

end Divides

/-- What laying out a block does to the array. -/
structure Lays (t : Tree layout) (slot : Nat) (n : Node) (block : Nat) (t' : Tree layout) :
    Prop where
  config_eq : t'.config = t.config
  pool_eq : t'.pool = t.pool
  locations_eq : t'.locations = t.locations
  span_eq : t'.span = t.span
  size_eq : t'.nodes.size = max t.nodes.size (layout.firstSlot block + layout.arity)
  node_child : ∀ child < layout.arity, t'.nodes[layout.firstSlot block + child]? =
    some (.leaf (layout.childBounds n.bounds n.bounds.center child) (n.depth + 1) (some slot))
  node_other : ∀ i, i ∉ layout.blockSlots block → t'.nodes[i]? = t.nodes[i]?

private theorem lays_fresh (slot : Nat) (n : Node) {block : Nat}
    (hfresh : layout.firstSlot block = t.nodes.size) :
    ∃ t', t.layBlock slot n block = .ok t' ∧ t.Lays slot n block t' := by
  unfold layBlock
  rw [if_pos hfresh]
  have hsize : (t.nodes ++ ((layout.children n.bounds n.bounds.center).map fun b =>
      Node.leaf b (n.depth + 1) (some slot)).toArray).size = t.nodes.size + layout.arity := by
    simp [Layout.children]
  refine ⟨_, rfl, rfl, rfl, rfl, rfl, ?_, ?_, ?_⟩
  · rw [hsize]
    omega
  · intro child hchild
    rw [Array.getElem?_append_right (by omega), hfresh, Nat.add_sub_cancel_left]
    simp [Layout.children, hchild]
  · intro i hi
    by_cases hlt : i < t.nodes.size
    · exact Array.getElem?_append_left hlt
    · have hout : layout.firstSlot block + layout.arity ≤ i := by
        by_contra hin
        exact hi (Layout.mem_blockSlots.mpr ⟨i - layout.firstSlot block, by omega, by omega⟩)
      rw [Array.getElem?_eq_none (show t.nodes.size ≤ i by omega)]
      exact Array.getElem?_eq_none (hsize ▸ hfresh ▸ hout)

private theorem blockSlots_zip_children (b : Box) (block : Nat) :
    (layout.blockSlots block).zip (layout.children b b.center) =
      (List.range layout.arity).map fun child =>
        (layout.firstSlot block + child, layout.childBounds b b.center child) := by
  unfold Layout.blockSlots Layout.children
  rw [List.range'_eq_map_range, List.zip_map']

private theorem lays_recycled (slot : Nat) (n : Node) {block : Nat}
    (hold : layout.firstSlot block + layout.arity ≤ t.nodes.size)
    (hempty : ∀ i ∈ layout.blockSlots block, t.occupantsAt i = #[]) :
    ∃ t', t.layBlock slot n block = .ok t' ∧ t.Lays slot n block t' := by
  have hne : ¬ layout.firstSlot block = t.nodes.size := by
    have hpos := Layout.arity_pos layout
    omega
  unfold layBlock
  rw [if_neg hne, blockSlots_zip_children]
  have hslots : ((List.range layout.arity).map fun child =>
      (layout.firstSlot block + child, layout.childBounds n.bounds n.bounds.center child)).map
      Prod.fst = layout.blockSlots block := by
    rw [List.map_map, Layout.blockSlots, List.range'_eq_map_range]
    rfl
  have hmem {a : Nat × Box} (ha : a ∈ (List.range layout.arity).map fun child =>
      (layout.firstSlot block + child, layout.childBounds n.bounds n.bounds.center child)) :
      a.1 ∈ layout.blockSlots block := hslots ▸ List.mem_map_of_mem ha
  obtain ⟨t', hfold, honly, hrest, hput⟩ := exists_foldlM_setNode
    (fun t place => do
      let old ← t.node place.1
      if old.occupants.isEmpty then
        pure (t.setNode place.1 (.leaf place.2 (n.depth + 1) (some slot)))
      else throw (.occupied place.1))
    Prod.fst (fun a _ => .leaf a.2 (n.depth + 1) (some slot))
    ((List.range layout.arity).map fun child =>
      (layout.firstSlot block + child, layout.childBounds n.bounds n.bounds.center child)) t
    (hslots ▸ Layout.nodup_blockSlots block)
    (fun a ha => by
      obtain ⟨child, hchild, heq⟩ := Layout.mem_blockSlots.mp (hmem ha)
      omega)
    (fun u a m ha _ hm hum => by
      have hnone : m.occupants = #[] := (occupantsAt_of_node hm).symm.trans (hempty a.1 (hmem ha))
      simp [node_eq_ok hum, hnone, bind, Except.bind, pure, Except.pure])
  refine ⟨t', hfold, honly.config_eq, honly.pool_eq, honly.locations_eq, honly.span_eq, ?_,
    ?_, fun i hi => hrest i (hslots ▸ hi)⟩
  · rw [honly.size_eq, Nat.max_eq_left hold]
  · intro child hchild
    have hlt : layout.firstSlot block + child < t.nodes.size := by omega
    exact hput (layout.firstSlot block + child, _)
      (List.mem_map_of_mem (List.mem_range.mpr hchild)) _ (Array.getElem?_eq_getElem hlt)

theorem exists_layBlock (h : t.WellFormed) {block : Nat} {pool : BlockPool}
    (htakes : t.pool.Takes block pool) (slot : Nat) (n : Node) :
    ∃ t', ({ t with pool } : Tree layout).layBlock slot n block = .ok t' ∧
      ({ t with pool } : Tree layout).Lays slot n block t' ∧
      t'.nodes.size = layout.firstSlot pool.highWater := by
  have hsize := h.arena.size_eq
  rcases htakes.recycled_or_fresh with ⟨hretired, htop⟩ | ⟨hfresh, htop⟩
  · have hlt := h.arena.pool_sound.in_range block hretired
    have hpos := Layout.arity_pos layout
    have hlast := Layout.firstSlot_add_lt hlt (Nat.sub_one_lt_of_lt hpos)
    have hold : layout.firstSlot block + layout.arity ≤ t.nodes.size := by omega
    have hempty : ∀ i ∈ layout.blockSlots block,
        ({ t with pool } : Tree layout).occupantsAt i = #[] := fun i hi => by
      obtain ⟨child, hchild, rfl⟩ := Layout.mem_blockSlots.mp hi
      exact h.placed.occupantsAt_eq_empty fun hlive =>
        htakes.free_before ((live_child_iff hchild).mp hlive)
    obtain ⟨t', heq, hlays⟩ := lays_recycled slot n (t := { t with pool }) hold hempty
    refine ⟨t', heq, hlays, ?_⟩
    rw [hlays.size_eq, htop, ← hsize]
    exact Nat.max_eq_left hold
  · have hend : layout.firstSlot block = t.nodes.size := by rw [hsize, hfresh]
    obtain ⟨t', heq, hlays⟩ := lays_fresh slot n (t := { t with pool }) hend
    refine ⟨t', heq, hlays, ?_⟩
    have hnext : layout.firstSlot pool.highWater = layout.firstSlot block + layout.arity := by
      rw [htop, hfresh]
      unfold Layout.firstSlot
      rw [Nat.add_mul]
      omega
    rw [hlays.size_eq, hnext]
    change max t.nodes.size _ = _
    omega

/-- The child slot that an entity of a divided node moves to, if one child holds
it whole. -/
def destination (t : Tree layout) (n : Node) (block : Nat) (e : Handle) : Option Nat :=
  (t.boxOf e).bind fun box =>
    if n.bounds.contains (layout.project box) then
      (layout.sharedChild? n.bounds.center (layout.project box)).map (layout.firstSlot block + ·)
    else none

theorem destination_eq_some {n : Node} {block slot : Nat} {e : Handle} {box : Box}
    (hbox : t.boxOf e = some box) :
    t.destination n block e = some slot ↔ ∃ child,
      n.bounds.contains (layout.project box) = true ∧
        layout.sharedChild? n.bounds.center (layout.project box) = some child ∧
        layout.firstSlot block + child = slot := by
  rw [destination, hbox, Option.bind_some]
  split_ifs with h
  · simp [h]
  · simp [h]

theorem destination_eq_none {n : Node} {block : Nat} {e : Handle} {box : Box}
    (hbox : t.boxOf e = some box) :
    t.destination n block e = none ↔ n.bounds.contains (layout.project box) = false ∨
      layout.sharedChild? n.bounds.center (layout.project box) = none := by
  rw [destination, hbox, Option.bind_some]
  split_ifs with h
  · simp [h]
  · simp [h]

theorem destination_mem {n : Node} {block slot : Nat} {e : Handle}
    (h : t.destination n block e = some slot) : slot ∈ layout.blockSlots block := by
  obtain ⟨box, hbox, -⟩ := Option.bind_eq_some_iff.mp h
  obtain ⟨child, -, hshared, rfl⟩ := (destination_eq_some hbox).mp h
  exact Layout.mem_blockSlots.mpr ⟨child, Layout.sharedChild?_lt_arity hshared, rfl⟩

/-- One entity either stays or is stored in its destination. -/
theorem migrate_eq (n : Node) (block : Nat) (kept : Array Handle) {e : Handle} {origin : Nat}
    {box : Box} (hrecord : t.locations[e]? = some ⟨origin, box⟩) :
    (t.destination n block e = none → migrate n block (t, kept) e = .ok (t, kept.push e)) ∧
      ∀ slot m, t.destination n block e = some slot → t.nodes[slot]? = some m →
        migrate n block (t, kept) e = .ok (t.store slot m e box, kept) := by
  have hbox := boxOf_of_record hrecord
  constructor
  · intro hnone
    rcases (destination_eq_none hbox).mp hnone with hout | hstraddles
    · simp [migrate, hrecord, hout]
    · simp [migrate, hrecord, hstraddles]
  · intro slot m hsome hm
    obtain ⟨child, hin, hshared, rfl⟩ := (destination_eq_some hbox).mp hsome
    simp only [migrate, hrecord, hin, hshared, Bool.not_true, Bool.false_eq_true, if_false,
      node_eq_ok hm]
    rfl

/-- What the moves of a list of entities do to the tree and to the kept ones. -/
structure Migrates (t : Tree layout) (n : Node) (block : Nat) (es : List Handle)
    (kept : Array Handle) (t' : Tree layout) (kept' : Array Handle) : Prop where
  config_eq : t'.config = t.config
  pool_eq : t'.pool = t.pool
  span_eq : t'.span = t.span
  size_eq : t'.nodes.size = t.nodes.size
  frame_eq : ∀ i, t'.frame i = t.frame i
  kept_eq : kept'.toList = kept.toList ++ es.filter fun e => t.destination n block e = none
  occupants_eq : ∀ i, (t'.occupantsAt i).toList =
    (t.occupantsAt i).toList ++ es.filter fun e => t.destination n block e = some i
  record_eq : ∀ e, t'.locations[e]? =
    if e ∈ es then
      (t.locations[e]?).map fun old => ⟨(t.destination n block e).getD old.slot, old.bounds⟩
    else t.locations[e]?

theorem exists_migrates (n : Node) (block : Nat) (es : List Handle) (t : Tree layout)
    (kept : Array Handle) (hnodup : es.Nodup)
    (htracked : ∀ e ∈ es, ∃ origin box, t.locations[e]? = some ⟨origin, box⟩)
    (hslots : ∀ i ∈ layout.blockSlots block, i < t.nodes.size) :
    ∃ t' kept', es.foldlM (migrate n block) (t, kept) = .ok (t', kept') ∧
      t.Migrates n block es kept t' kept' := by
  induction es generalizing t kept with
  | nil => exact ⟨t, kept, rfl, by constructor <;> simp⟩
  | cons e es ih =>
      rw [List.nodup_cons] at hnodup
      obtain ⟨origin, box, hrecord⟩ := htracked e List.mem_cons_self
      obtain ⟨hstay, hmove⟩ := migrate_eq n block kept hrecord
      rw [List.foldlM_cons]
      cases hdest : t.destination n block e with
      | none =>
          obtain ⟨t', kept', hfold, h⟩ := ih t (kept.push e) hnodup.2
            (fun other hother => htracked other (List.mem_cons_of_mem e hother)) hslots
          refine ⟨t', kept', ?_, h.config_eq, h.pool_eq, h.span_eq, h.size_eq, h.frame_eq, ?_,
            ?_, ?_⟩
          · rw [hstay hdest]
            exact hfold
          · rw [h.kept_eq, Array.toList_push]
            simp [hdest]
          · intro i
            rw [h.occupants_eq]
            simp [hdest]
          · intro other
            rw [h.record_eq]
            by_cases heq : other = e
            · subst heq
              simp [hnodup.1, hdest, hrecord]
            · simp [heq]
      | some slot =>
          have hlt := hslots slot (destination_mem hdest)
          obtain ⟨m, hm⟩ : ∃ m, t.nodes[slot]? = some m := ⟨_, Array.getElem?_eq_getElem hlt⟩
          have hbox (other : Handle) : (t.store slot m e box).boxOf other = t.boxOf other := by
            rw [boxOf_store]
            split_ifs with heq
            · rw [heq, boxOf_of_record hrecord]
            · rfl
          have hsame (other : Handle) : (t.store slot m e box).destination n block other =
              t.destination n block other := by rw [destination, hbox, destination]
          have hrecords (other : Handle) : (t.store slot m e box).locations[other]? =
              if other = e then some ⟨slot, box⟩ else t.locations[other]? :=
            record_insert t.locations e other ⟨slot, box⟩
          obtain ⟨t', kept', hfold, h⟩ := ih (t.store slot m e box) kept hnodup.2
            (fun other hother => by
              obtain ⟨origin', box', hother'⟩ := htracked other (List.mem_cons_of_mem e hother)
              rw [hrecords]
              split_ifs
              · exact ⟨_, _, rfl⟩
              · exact ⟨_, _, hother'⟩)
            (fun i hi => size_setNode.symm ▸ hslots i hi)
          refine ⟨t', kept', ?_, h.config_eq, h.pool_eq, h.span_eq, h.size_eq.trans size_setNode,
            fun i => (h.frame_eq i).trans (frame_setNode_occupants hm _ i), ?_, ?_, ?_⟩
          · rw [hmove slot m hdest hm]
            exact hfold
          · rw [h.kept_eq]
            simp [hdest, hsame]
          · intro i
            have hstored : (t.store slot m e box).occupantsAt i =
                if i = slot then m.occupants.push e else t.occupantsAt i :=
              occupantsAt_setNode hlt i
            rw [h.occupants_eq, hstored]
            simp only [hsame]
            split_ifs with hi
            · subst hi
              rw [occupantsAt_of_node hm]
              simp [hdest]
            · have hne : ¬ slot = i := fun heq => hi heq.symm
              simp [hdest, hne]
          · intro other
            rw [h.record_eq, hrecords]
            by_cases heq : other = e
            · subst heq
              simp [hnodup.1, hdest, hrecord]
            · simp [heq, hsame]

/-- The way down by which an insertion reaches a slot: from the root, always to the
child that holds the whole box. -/
inductive Descends (t : Tree layout) (box : Box) : Nat → Prop where
  | root : Descends t box rootSlot
  | child {slot block child : Nat} {f : Node} : Descends t box slot → t.frame slot = some f →
      f.children = some block → layout.sharedChild? f.bounds.center box = some child →
      Descends t box (layout.firstSlot block + child)

theorem Descends.congr (hframe : ∀ i, t'.frame i = t.frame i) {box : Box} {slot : Nat}
    (h : t.Descends box slot) : t'.Descends box slot := by
  induction h with
  | root => exact .root
  | child _ hf hchildren hshared ih => exact .child ih ((hframe _).trans hf) hchildren hshared

/-- What the division of nodes keeps: nodes stay where they are, entities may only
move further down their way, and no box changes. -/
structure Grows (t t' : Tree layout) : Prop where
  config_eq : t'.config = t.config
  span_eq : t'.span = t.span
  box_eq : ∀ e, t'.boxOf e = t.boxOf e
  node : ∀ slot f, t.Live slot → t.frame slot = some f →
    t'.Live slot ∧ ∃ f', t'.frame slot = some f' ∧ f'.bounds = f.bounds ∧ f'.depth = f.depth
  descends : ∀ (e : Handle) slot box, t.locations[e]? = some ⟨slot, box⟩ →
    t.Descends (layout.project box) slot →
      ∃ slot', t'.locations[e]? = some ⟨slot', box⟩ ∧ t'.Descends (layout.project box) slot'

namespace Grows

theorem refl (t : Tree layout) : t.Grows t :=
  ⟨rfl, rfl, fun _ => rfl, fun _ f hlive hf => ⟨hlive, f, hf, rfl, rfl⟩,
    fun _ slot _ hrecord hdescends => ⟨slot, hrecord, hdescends⟩⟩

theorem trans {t'' : Tree layout} (h : t.Grows t') (h' : t'.Grows t'') : t.Grows t'' := by
  refine ⟨h'.config_eq.trans h.config_eq, h'.span_eq.trans h.span_eq,
    fun e => (h'.box_eq e).trans (h.box_eq e), ?_, ?_⟩
  · intro slot f hlive hf
    obtain ⟨hlive', f', hf', hbounds', hdepth'⟩ := h.node slot f hlive hf
    obtain ⟨hlive'', f'', hf'', hbounds'', hdepth''⟩ := h'.node slot f' hlive' hf'
    exact ⟨hlive'', f'', hf'', hbounds''.trans hbounds', hdepth''.trans hdepth'⟩
  · intro e slot box hrecord hdescends
    obtain ⟨slot', hrecord', hdescends'⟩ := h.descends e slot box hrecord hdescends
    exact h'.descends e slot' box hrecord' hdescends'

theorem inUse (h : t.Grows t') (harena : t.Arena) {block : Nat} (huse : t.pool.InUse block) :
    t'.pool.InUse block := by
  have hchild := Layout.arity_pos layout
  have hlive := live_child huse hchild
  obtain ⟨n, hn⟩ := harena.exists_node hlive
  exact (live_child_iff hchild).mp (h.node _ _ hlive (frame_of_node hn)).1

end Grows

/-- What a division does to the lists and records. -/
structure Rehouses (t : Tree layout) (slot : Nat) (n : Node) (block : Nat) (t' : Tree layout) :
    Prop where
  span_eq : t'.span = t.span
  occupants_slot : (t'.occupantsAt slot).toList =
    n.occupants.toList.filter fun e => t.destination n block e = none
  occupants_other : ∀ i, i ≠ slot → (t'.occupantsAt i).toList = (t.occupantsAt i).toList ++
    n.occupants.toList.filter fun e => t.destination n block e = some i
  record_eq : ∀ e, t'.locations[e]? =
    if e ∈ n.occupants then
      (t.locations[e]?).map fun old => ⟨(t.destination n block e).getD old.slot, old.bounds⟩
    else t.locations[e]?

section Moves

variable {slot block : Nat} {n : Node} {pool : BlockPool} {laid moved : Tree layout}
  {kept : Array Handle}

/-- The tree between laying out a block and the moves: the divided node is empty. -/
def emptied (laid : Tree layout) (slot : Nat) (n : Node) (block : Nat) : Tree layout :=
  laid.setNode slot { n with children := some block, occupants := #[] }

/-- The tree after the moves: the divided node has its remaining entities back. -/
def rehoused (moved : Tree layout) (slot : Nat) (n : Node) (block : Nat) (kept : Array Handle) :
    Tree layout :=
  moved.setNode slot { n with children := some block, occupants := kept }

theorem Lays.lt_size (h : t.Lays slot n block laid) {i : Nat} {m : Node}
    (hm : t.nodes[i]? = some m) : i < laid.nodes.size := by
  rw [h.size_eq]
  exact lt_of_lt_of_le (lt_size_of_node hm) (Nat.le_max_left _ _)

theorem Migrates.divides (hmoved : (laid.emptied slot n block).Migrates n block
      n.occupants.toList #[] moved kept)
    (hlays : ({ t with pool } : Tree layout).Lays slot n block laid)
    (halloc : t.pool.alloc = (block, pool)) (htakes : t.pool.Takes block pool)
    (hsize : laid.nodes.size = layout.firstSlot pool.highWater)
    (hn : t.nodes[slot]? = some n) (hout : slot ∉ layout.blockSlots block) :
    t.Divides slot n.bare block (moved.rehoused slot n block kept) := by
  have hlt : slot < laid.nodes.size := hlays.lt_size hn
  have hltmoved : slot < moved.nodes.size := by
    rw [hmoved.size_eq, emptied, size_setNode]
    exact hlt
  have hpool : (moved.rehoused slot n block kept).pool = pool := by
    rw [rehoused, pool_setNode, hmoved.pool_eq, emptied, pool_setNode, hlays.pool_eq]
  have hframe (i : Nat) : (moved.rehoused slot n block kept).frame i =
      if i = slot then some { n.bare with children := some block } else laid.frame i := by
    rw [rehoused, frame_setNode hltmoved, hmoved.frame_eq, emptied, frame_setNode hlt]
    split_ifs <;> rfl
  refine ⟨hmoved.config_eq.trans hlays.config_eq, hpool ▸ halloc, hpool ▸ htakes,
    ?_, ?_, ?_, ?_⟩
  · rw [hpool, ← hsize, rehoused, size_setNode, hmoved.size_eq, emptied, size_setNode]
  · rw [hframe, if_pos rfl]
  · intro child hchild
    have hne : layout.firstSlot block + child ≠ slot := fun heq =>
      hout (Layout.mem_blockSlots.mpr ⟨child, hchild, heq.symm⟩)
    rw [hframe, if_neg hne, frame_of_node (hlays.node_child child hchild)]
    rfl
  · intro i hi hnot
    rw [hframe, if_neg hi, frame, hlays.node_other i hnot, frame]

theorem Migrates.rehouses (hmoved : (laid.emptied slot n block).Migrates n block
      n.occupants.toList #[] moved kept)
    (hlays : ({ t with pool } : Tree layout).Lays slot n block laid)
    (hn : t.nodes[slot]? = some n) (hfree : ∀ i ∈ layout.blockSlots block, t.occupantsAt i = #[]) :
    t.Rehouses slot n block (moved.rehoused slot n block kept) := by
  have hlt : slot < laid.nodes.size := hlays.lt_size hn
  have hltmoved : slot < moved.nodes.size := by
    rw [hmoved.size_eq, emptied, size_setNode]
    exact hlt
  have hrecords : (laid.emptied slot n block).locations = t.locations := hlays.locations_eq
  have hdest (e : Handle) : (laid.emptied slot n block).destination n block e =
      t.destination n block e := by
    rw [destination, destination, boxOf, boxOf, hrecords]
  refine ⟨hmoved.span_eq.trans hlays.span_eq, ?_, ?_, ?_⟩
  · rw [rehoused, occupantsAt_setNode hltmoved, if_pos rfl, hmoved.kept_eq]
    simp [hdest]
  · intro i hi
    have hbefore : (laid.emptied slot n block).occupantsAt i = t.occupantsAt i := by
      rw [emptied, occupantsAt_setNode hlt, if_neg hi]
      by_cases hin : i ∈ layout.blockSlots block
      · rw [hfree i hin]
        obtain ⟨child, hchild, rfl⟩ := Layout.mem_blockSlots.mp hin
        rw [occupantsAt_of_node (hlays.node_child child hchild)]
        rfl
      · rw [occupantsAt, hlays.node_other i hin, occupantsAt]
    rw [rehoused, occupantsAt_setNode hltmoved, if_neg hi, hmoved.occupants_eq, hbefore]
    simp [hdest]
  · intro e
    rw [rehoused, locations_setNode, hmoved.record_eq, hdest, hrecords]
    simp

end Moves

theorem exists_subdivide (h : t.WellFormed) {slot : Nat} {n : Node} (hlive : t.Live slot)
    (hn : t.nodes[slot]? = some n) :
    ∃ t' block, t.subdivide slot n = .ok (t', block, .subdivided slot n.depth block) ∧
      t.Divides slot n.bare block t' ∧ t.Rehouses slot n block t' := by
  have htakes := BlockPool.takes_alloc h.arena.pool_sound
  obtain ⟨laid, hlay, hlays, hsize⟩ := exists_layBlock h htakes slot n
  have hfree (i : Nat) (hi : i ∈ layout.blockSlots t.pool.alloc.1) : ¬ t.Live i := by
    obtain ⟨child, hchild, rfl⟩ := Layout.mem_blockSlots.mp hi
    intro hlive
    exact htakes.free_before ((live_child_iff hchild).mp hlive)
  have htracked (e : Handle) (he : e ∈ n.occupants.toList) :
      ∃ origin box, (laid.emptied slot n t.pool.alloc.1).locations[e]? = some ⟨origin, box⟩ := by
    have hmem : e ∈ t.occupantsAt slot :=
      (occupantsAt_of_node hn).symm ▸ Array.mem_toList_iff.mp he
    obtain ⟨box, hrecord⟩ := (h.placed.stored_iff e slot).mp hmem
    exact ⟨slot, box, hlays.locations_eq ▸ hrecord⟩
  have hslots (i : Nat) (hi : i ∈ layout.blockSlots t.pool.alloc.1) :
      i < (laid.emptied slot n t.pool.alloc.1).nodes.size := by
    obtain ⟨child, hchild, rfl⟩ := Layout.mem_blockSlots.mp hi
    rw [emptied, size_setNode, hlays.size_eq]
    omega
  obtain ⟨moved, kept, hfold, hmoved⟩ := exists_migrates n t.pool.alloc.1 n.occupants.toList
    (laid.emptied slot n t.pool.alloc.1) #[] (occupantsAt_of_node hn ▸ h.placed.nodup slot)
    htracked hslots
  refine ⟨moved.rehoused slot n t.pool.alloc.1 kept, t.pool.alloc.1, ?_,
    hmoved.divides hlays rfl htakes hsize hn fun hmem => hfree slot hmem hlive,
    hmoved.rehouses hlays hn fun i hi => h.placed.occupantsAt_eq_empty (hfree i hi)⟩
  change (({ t with pool := t.pool.alloc.2 } : Tree layout).layBlock slot n t.pool.alloc.1
    >>= _) = _
  rw [hlay]
  change (n.occupants.foldlM (migrate n t.pool.alloc.1) (laid.emptied slot n t.pool.alloc.1, #[])
    >>= _) = _
  rw [← Array.foldlM_toList, hfold]
  rfl

section Divided

variable {slot block : Nat} {n : Node}

theorem Rehouses.record_cases (h : t.Rehouses slot n block t') (hplaced : t.Placed)
    (hn : t.nodes[slot]? = some n) {e : Handle} {i : Nat} {box : Box}
    (hrecord : t'.locations[e]? = some ⟨i, box⟩) :
    t.boxOf e = some box ∧
      ((e ∈ n.occupants ∧ t.locations[e]? = some ⟨slot, box⟩ ∧
          (t.destination n block e = none ∧ i = slot ∨ t.destination n block e = some i)) ∨
        (e ∉ n.occupants ∧ i ≠ slot ∧ t.locations[e]? = some ⟨i, box⟩)) := by
  rw [h.record_eq] at hrecord
  split_ifs at hrecord with he
  · obtain ⟨old, hold⟩ := (hplaced.stored_iff e slot).mp ((occupantsAt_of_node hn).symm ▸ he)
    rw [hold, Option.map_some, Option.some.injEq, Location.mk.injEq] at hrecord
    obtain ⟨hslot, rfl⟩ := hrecord
    refine ⟨boxOf_of_record hold, Or.inl ⟨he, hold, ?_⟩⟩
    cases hdest : t.destination n block e with
    | none => exact Or.inl ⟨rfl, by rw [← hslot, hdest, Option.getD_none]⟩
    | some j => exact Or.inr (by rw [← hslot, hdest, Option.getD_some])
  · refine ⟨boxOf_of_record hrecord, Or.inr ⟨he, ?_, hrecord⟩⟩
    rintro rfl
    exact he (occupantsAt_of_node hn ▸ (hplaced.stored_iff e i).mpr ⟨box, hrecord⟩)

theorem Rehouses.box_eq (h : t.Rehouses slot n block t') (e : Handle) :
    t'.boxOf e = t.boxOf e := by
  rw [boxOf, h.record_eq, boxOf]
  split_ifs
  · rw [Option.map_map]
    rfl
  · rfl

private theorem Rehouses.stored_iff (h : t.Rehouses slot n block t') (hplaced : t.Placed)
    (hn : t.nodes[slot]? = some n) (hout : slot ∉ layout.blockSlots block) (e : Handle) (i : Nat) :
    e ∈ t'.occupantsAt i ↔ ∃ box, t'.locations[e]? = some ⟨i, box⟩ := by
  have hlist : e ∈ t'.occupantsAt i ↔
      (e ∈ n.occupants ∧ (t.destination n block e = none ∧ i = slot ∨
        t.destination n block e = some i ∧ i ≠ slot)) ∨ (i ≠ slot ∧ e ∈ t.occupantsAt i) := by
    rw [← Array.mem_toList_iff]
    by_cases hi : i = slot
    · subst hi
      simp [h.occupants_slot]
    · simp [h.occupants_other i hi, hi]
      tauto
  rw [hlist, h.record_eq]
  have hold := hplaced.stored_iff e
  split_ifs with he
  · obtain ⟨box, hbox⟩ := (hold slot).mp ((occupantsAt_of_node hn).symm ▸ he)
    have helse : i ≠ slot → e ∉ t.occupantsAt i := fun hne hmem => by
      obtain ⟨box', hbox'⟩ := (hold i).mp hmem
      rw [hbox, Option.some.injEq, Location.mk.injEq] at hbox'
      exact hne hbox'.1.symm
    have hnew : (∃ box', (t.locations[e]?).map
        (fun old => (⟨(t.destination n block e).getD old.slot, old.bounds⟩ : Location)) =
          some ⟨i, box'⟩) ↔ (t.destination n block e).getD slot = i := by
      simp [hbox]
    rw [hnew]
    cases hdest : t.destination n block e with
    | none =>
        simp only [he, true_and, reduceCtorEq, false_and, or_false, Option.getD_none]
        constructor
        · rintro (rfl | ⟨hne, hmem⟩)
          · rfl
          · exact absurd hmem (helse hne)
        · rintro rfl
          exact Or.inl rfl
    | some j =>
        have hj : j ≠ slot := fun heq => hout (heq ▸ destination_mem hdest)
        simp only [he, true_and, reduceCtorEq, false_and, false_or, Option.some.injEq,
          Option.getD_some]
        constructor
        · rintro (⟨heq, -⟩ | ⟨hne, hmem⟩)
          · exact heq
          · exact absurd hmem (helse hne)
        · rintro rfl
          exact Or.inl ⟨rfl, hj⟩
  · rw [← hold i]
    constructor
    · rintro (⟨hin, -⟩ | ⟨-, hmem⟩)
      · exact absurd hin he
      · exact hmem
    · intro hmem
      refine Or.inr ⟨?_, hmem⟩
      rintro rfl
      exact he (occupantsAt_of_node hn ▸ hmem)

theorem WellFormed.divide (h : t.WellFormed) (hlive : t.Live slot) (hn : t.nodes[slot]? = some n)
    (hleaf : n.children = none) (hdepth : n.depth < t.config.maxDepth)
    (hdivides : t.Divides slot n.bare block t') (hrehouses : t.Rehouses slot n block t') :
    t'.WellFormed := by
  have hf := frame_of_node hn
  have hout := hdivides.not_mem_of_live hlive
  refine ⟨hdivides.arena h.arena hlive hf hleaf hdepth,
    hrehouses.stored_iff h.placed hn hout, ?_, ?_, ?_⟩
  · intro i
    have hnodup := occupantsAt_of_node hn ▸ h.placed.nodup slot
    by_cases hi : i = slot
    · subst hi
      rw [hrehouses.occupants_slot]
      exact hnodup.filter _
    · rw [hrehouses.occupants_other i hi]
      refine List.nodup_append.mpr ⟨h.placed.nodup i, hnodup.filter _, ?_⟩
      rintro e he _ he' rfl
      obtain ⟨box, hbox⟩ := (h.placed.stored_iff e i).mp (Array.mem_toList_iff.mp he)
      obtain ⟨box', hbox'⟩ := (h.placed.stored_iff e slot).mp
        ((occupantsAt_of_node hn).symm ▸ Array.mem_toList_iff.mp (List.mem_of_mem_filter he'))
      rw [hbox, Option.some.injEq, Location.mk.injEq] at hbox'
      exact hi hbox'.1
  · intro e i box hrecord
    rw [hdivides.live_iff]
    rcases hrehouses.record_cases h.placed hn hrecord with
      ⟨-, ⟨-, -, ⟨-, rfl⟩ | hdest⟩ | ⟨-, -, hold⟩⟩
    · exact Or.inl hlive
    · exact Or.inr (destination_mem hdest)
    · exact Or.inl (h.placed.live e i box hold)
  · intro e i box f hrecord hf'
    rcases hrehouses.record_cases h.placed hn hrecord with
      ⟨hbox, ⟨-, hold, ⟨hdest, rfl⟩ | hdest⟩ | ⟨-, hne, hold⟩⟩
    · -- a straddling entity, or one outside of the world, stays
      obtain rfl := Option.some.inj (hf'.symm.trans hdivides.frame_slot)
      rcases h.placed.fits e i box n.bare hold hf with hroot | ⟨hin, -⟩
      · exact Or.inl hroot
      · refine Or.inr ⟨hin, Or.inr ?_⟩
        exact ((destination_eq_none hbox).mp hdest).resolve_left fun hnot =>
          Bool.false_ne_true (hnot.symm.trans hin)
    · obtain ⟨child, hin, hshared, rfl⟩ := (destination_eq_some hbox).mp hdest
      obtain rfl := Option.some.inj
        (hf'.symm.trans (hdivides.frame_child child (Layout.sharedChild?_lt_arity hshared)))
      have htame := h.arena.tame slot n.bare hlive hf
      exact Or.inr ⟨Layout.contains_childBounds htame hin hshared, Or.inl rfl⟩
    · have hother := h.placed.live e i box hold
      rw [hdivides.frame_other i hne (hdivides.not_mem_of_live hother)] at hf'
      exact h.placed.fits e i box f hold hf'

/-- A division does not change the way down to a node. -/
theorem Divides.descends (h : t.Divides slot n.bare block t') (harena : t.Arena)
    (hn : t.nodes[slot]? = some n) (hleaf : n.children = none) {box : Box} {i : Nat}
    (hdescends : t.Descends box i) : t.Live i ∧ t'.Descends box i := by
  induction hdescends with
  | root => exact ⟨live_root t, .root⟩
  | @child i block' child f _ hf hchildren hshared ih =>
      have hlink := (harena.link i f block' ih.1 hf hchildren).1
      have hne : i ≠ slot := by
        rintro rfl
        obtain rfl : n.bare = f := Option.some.inj ((frame_of_node hn).symm.trans hf)
        cases hleaf.symm.trans hchildren
      refine ⟨live_child hlink (Layout.sharedChild?_lt_arity hshared), ?_⟩
      have hf' := (h.frame_other i hne (h.not_mem_of_live ih.1)).trans hf
      exact .child ih.2 hf' hchildren hshared

theorem Divides.grows (h : t.Divides slot n.bare block t') (hrehouses : t.Rehouses slot n block t')
    (hwell : t.WellFormed) (hn : t.nodes[slot]? = some n) (hleaf : n.children = none) :
    t.Grows t' := by
  refine ⟨h.config_eq, hrehouses.span_eq, hrehouses.box_eq, ?_, ?_⟩
  · intro i f hlive hf
    obtain ⟨f', hf', hbounds, hdepth, -, -⟩ := h.frame_of_live (frame_of_node hn) hlive hf
    exact ⟨(h.live_iff i).mpr (Or.inl hlive), f', hf', hbounds, hdepth⟩
  · intro e i box hrecord hdescends
    have hdescends' := (h.descends hwell.arena hn hleaf hdescends).2
    have hbox := boxOf_of_record hrecord
    by_cases he : e ∈ n.occupants
    · obtain ⟨box', hstored⟩ := (hwell.placed.stored_iff e slot).mp
        ((occupantsAt_of_node hn).symm ▸ he)
      rw [hrecord, Option.some.injEq, Location.mk.injEq] at hstored
      obtain ⟨rfl, rfl⟩ := hstored
      have hnew := hrehouses.record_eq e
      rw [if_pos he, hrecord, Option.map_some] at hnew
      refine ⟨_, hnew, ?_⟩
      cases hdest : t.destination n block e with
      | none => exact hdescends'
      | some j =>
          obtain ⟨child, -, hshared, rfl⟩ := (destination_eq_some hbox).mp hdest
          exact .child hdescends' h.frame_slot rfl hshared
    · refine ⟨i, ?_, hdescends'⟩
      rw [hrehouses.record_eq, if_neg he, hrecord]

end Divided

theorem leaf_of_needsSplit {config : TreeConfig} {n : Node} (h : needsSplit config n = true) :
    n.children = none ∧ n.depth < config.maxDepth := by
  simp only [needsSplit, Node.isLeaf, Bool.and_eq_true, Option.isNone_iff_eq_none,
    decide_eq_true_eq] at h
  exact ⟨h.1.1, h.2⟩

theorem size_of_needsSplit {config : TreeConfig} {n : Node} (h : needsSplit config n = true) :
    config.maxOccupants < n.occupants.size := by
  simp only [needsSplit, Bool.and_eq_true, decide_eq_true_eq] at h
  exact h.1.2

theorem needsSplit_eq_false {config : TreeConfig} {n : Node} :
    needsSplit config n = false ↔ n.children = none →
      n.occupants.size ≤ config.maxOccupants ∨ config.maxDepth ≤ n.depth := by
  rw [needsSplit, Bool.and_eq_false_iff, Bool.and_eq_false_iff, decide_eq_false_iff_not,
    decide_eq_false_iff_not, not_lt, not_lt, Node.isLeaf]
  cases n.children <;> simp

/-- A division moves nothing if the children are empty after it. -/
theorem Divides.occupantsAt_eq_of_empty {slot block : Nat} {n : Node}
    (h : t.Divides slot n.bare block t') (hrehouses : t.Rehouses slot n block t')
    (hlive : t.Live slot)
    (hempty : ∀ i ∈ layout.blockSlots block, t'.occupantsAt i = #[]) :
    t'.occupantsAt slot = n.occupants := by
  apply Array.toList_inj.mp
  rw [hrehouses.occupants_slot]
  apply List.filter_eq_self.mpr
  intro e he
  rw [decide_eq_true_eq]
  cases hdest : t.destination n block e with
  | none => rfl
  | some i =>
      have hmem := destination_mem hdest
      have hne : i ≠ slot := by
        rintro rfl
        exact h.not_mem_of_live hlive hmem
      have hlist := hrehouses.occupants_other i hne
      rw [hempty i hmem] at hlist
      have hmoved : e ∈ n.occupants.toList.filter fun e => t.destination n block e = some i := by
        simp [he, hdest]
      cases List.append_eq_nil_iff.mp hlist.symm with
      | intro _ hnone =>
          rw [hnone] at hmoved
          cases hmoved

/-- What dividing a node and its descendants does: the invariant is kept and the tree only
grows, by divisions above the greatest depth that the pool accounts for. -/
structure Splits (t : Tree layout) (events : List TreeEvent) (t' : Tree layout) : Prop where
  wellFormed : t'.WellFormed
  grows : t.Grows t'
  shallow : Shallow t.config.maxDepth events
  ledger : Ledger t.pool events t'.pool

theorem Splits.refl (h : t.WellFormed) : t.Splits [] t :=
  ⟨h, .refl t, .nil _, .nil t.pool⟩

theorem Splits.trans {t'' : Tree layout} {events more : List TreeEvent}
    (h : t.Splits events t') (h' : t'.Splits more t'') : t.Splits (events ++ more) t'' := by
  have hshallow := h'.shallow
  rw [h.grows.config_eq] at hshallow
  exact ⟨h'.wellFormed, h.grows.trans h'.grows, h.shallow.append hshallow,
    h.ledger.append h'.ledger⟩

theorem Splits.of_divides {slot block : Nat} {n : Node} (h : t.WellFormed) (hlive : t.Live slot)
    (hn : t.nodes[slot]? = some n) (hneeds : needsSplit t.config n = true)
    (hdivides : t.Divides slot n.bare block t') (hrehouses : t.Rehouses slot n block t') :
    t.Splits [.subdivided slot n.depth block] t' := by
  obtain ⟨hleaf, hdepth⟩ := leaf_of_needsSplit hneeds
  exact ⟨h.divide hlive hn hleaf hdepth hdivides hrehouses, hdivides.grows hrehouses h hn hleaf,
    (Shallow.nil _).cons hdepth, .take h.arena.pool_sound hdivides.alloc_eq (.nil t'.pool)⟩

/-- The nodes of a list are visited one after the other, and those that hold too many entities
are divided. The children of a divided node are visited next. -/
inductive Divisions : Tree layout → List Nat → List TreeEvent → Tree layout → Prop where
  | nil (t : Tree layout) : Divisions t [] [] t
  | keep {t t' : Tree layout} {slot : Nat} {n : Node} {slots : List Nat}
      {events : List TreeEvent} : t.Live slot → t.nodes[slot]? = some n →
      needsSplit t.config n = false → Divisions t slots events t' →
      Divisions t (slot :: slots) events t'
  | divide {t divided t' : Tree layout} {slot block : Nat} {n : Node} {slots : List Nat}
      {events : List TreeEvent} : t.Live slot → t.nodes[slot]? = some n →
      needsSplit t.config n = true → t.Divides slot n.bare block divided →
      t.Rehouses slot n block divided →
      Divisions divided (layout.blockSlots block ++ slots) events t' →
      Divisions t (slot :: slots) (.subdivided slot n.depth block :: events) t'

namespace Divisions

variable {slots : List Nat} {events : List TreeEvent}

theorem append {t'' : Tree layout} {slots' : List Nat} {events' : List TreeEvent}
    (h : Divisions t slots events t') (h' : Divisions t' slots' events' t'') :
    Divisions t (slots ++ slots') (events ++ events') t'' := by
  induction h with
  | nil => exact h'
  | keep hlive hn hneeds _ ih => exact .keep hlive hn hneeds (ih h')
  | divide hlive hn hneeds hdivides hrehouses _ ih =>
      have hrest := ih h'
      rw [List.append_assoc] at hrest
      exact .divide hlive hn hneeds hdivides hrehouses hrest

theorem splits (h : Divisions t slots events t') (hwell : t.WellFormed) :
    t.Splits events t' := by
  induction h with
  | nil => exact .refl hwell
  | keep _ _ _ _ ih => exact ih hwell
  | divide hlive hn hneeds hdivides hrehouses _ ih =>
      have hfirst := Splits.of_divides hwell hlive hn hneeds hdivides hrehouses
      exact hfirst.trans (ih hfirst.wellFormed)

end Divisions

/-- The slots of a list are divided one after the other if each of them can be divided in
every state that the divisions before it lead to. -/
private theorem exists_splitSlots (levels : Nat) (slots : List Nat)
    (hsplit : ∀ i ∈ slots, ∀ u : Tree layout, u.WellFormed → t.Grows u →
      ∃ u' more, u.splitIfNeeded levels i = .ok (u', more) ∧ Divisions u [i] more u')
    {u : Tree layout} (hu : u.WellFormed) (hgrown : t.Grows u) (events : List TreeEvent) :
    ∃ t' more, slots.foldlM
      (fun state child => do
        let split ← state.1.splitIfNeeded levels child
        pure (split.1, state.2 ++ split.2)) (u, events) = .ok (t', events ++ more) ∧
      Divisions u slots more t' := by
  induction slots generalizing u events with
  | nil => exact ⟨u, [], by rw [List.append_nil]; rfl, .nil u⟩
  | cons i slots ih =>
      obtain ⟨u', more, heq, hdivisions⟩ := hsplit i List.mem_cons_self u hu hgrown
      have hsplits := hdivisions.splits hu
      obtain ⟨t', rest, hrest, hdivisions'⟩ :=
        ih (fun j hj => hsplit j (List.mem_cons_of_mem i hj)) hsplits.wellFormed
          (hgrown.trans hsplits.grows) (events ++ more)
      refine ⟨t', more ++ rest, ?_, hdivisions.append hdivisions'⟩
      rw [List.foldlM_cons, ← List.append_assoc]
      simp only [heq, bind, Except.bind, pure, Except.pure]
      exact hrest

/-- Dividing an overfull leaf and its descendants does not fail. -/
theorem exists_splitIfNeeded (levels : Nat) {slot : Nat} {n : Node} (h : t.WellFormed)
    (hlive : t.Live slot) (hn : t.nodes[slot]? = some n)
    (hlevels : t.config.maxDepth ≤ n.depth + levels) :
    ∃ t' events, t.splitIfNeeded levels slot = .ok (t', events) ∧
      Divisions t [slot] events t' := by
  induction levels generalizing t slot n with
  | zero =>
      have hno : needsSplit t.config n = false := by
        simp [needsSplit]
        omega
      refine ⟨t, [], ?_, .keep hlive hn hno (.nil t)⟩
      unfold splitIfNeeded
      rw [node_eq_ok hn]
      simp [hno, bind, Except.bind, pure, Except.pure]
  | succ levels ih =>
      cases hneeds : needsSplit t.config n with
      | false =>
          refine ⟨t, [], ?_, .keep hlive hn hneeds (.nil t)⟩
          unfold splitIfNeeded
          rw [node_eq_ok hn]
          simp [hneeds, bind, Except.bind, pure, Except.pure]
      | true =>
          obtain ⟨divided, block, heq, hdivides, hrehouses⟩ := exists_subdivide h hlive hn
          have hfirst := Splits.of_divides h hlive hn hneeds hdivides hrehouses
          have hchildren (i : Nat) (hi : i ∈ layout.blockSlots block) (u : Tree layout)
              (hu : u.WellFormed) (hgrown : divided.Grows u) :
              ∃ u' more, u.splitIfNeeded levels i = .ok (u', more) ∧ Divisions u [i] more u' := by
            -- a child not yet visited stays in use with its depth
            obtain ⟨child, hchild, rfl⟩ := Layout.mem_blockSlots.mp hi
            have hnew := (hdivides.live_iff _).mpr (Or.inr hi)
            obtain ⟨hliveu, f, hf, -, hfdepth⟩ :=
              hgrown.node _ _ hnew (hdivides.frame_child child hchild)
            obtain ⟨m, hm, rfl⟩ := exists_node_of_frame hf
            have hmdepth : m.depth = n.depth + 1 := hfdepth
            apply ih hu hliveu hm
            rw [hgrown.config_eq, hfirst.grows.config_eq, hmdepth]
            omega
          obtain ⟨t', more, hrest, hdivisions⟩ := exists_splitSlots levels
            (layout.blockSlots block) hchildren hfirst.wellFormed (.refl divided)
            [.subdivided slot n.depth block]
          rw [← List.append_nil (layout.blockSlots block)] at hdivisions
          refine ⟨t', .subdivided slot n.depth block :: more, ?_,
            .divide hlive hn hneeds hdivides hrehouses hdivisions⟩
          unfold splitIfNeeded
          rw [node_eq_ok hn]
          simp only [hneeds, bind, Except.bind, Bool.not_true, Bool.false_eq_true, if_false, heq]
          exact hrest

end Tree

end Broadphase
