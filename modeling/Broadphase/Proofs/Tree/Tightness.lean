import Mathlib
import Broadphase.Proofs.Tree.Partition
import Broadphase.Proofs.Tree.Safety

/-!
The shape of a tree is tight: no leaf holds too many entities that it could pass on, and no
divided node could take back its children. Storing an entity leaves at most its own node to be
divided, a division at most the new children, and a withdrawal or a merge at most one node
to be merged. The divisions and merges that follow deal with exactly these nodes.
-/

namespace Broadphase

namespace Tree

variable {layout : Layout} {t t' : Tree layout} {slot block : Nat} {n : Node}

/-- The tree has nothing left to divide or merge, apart from some nodes that are still to be
looked at for a division and from at most one that may be merged. -/
structure Tight (t : Tree layout) (pending : List Nat) (loose : Option Nat) : Prop where
  settled : ∀ slot n, t.Live slot → t.nodes[slot]? = some n → slot ∉ pending →
    needsSplit t.config n = false
  firm : ∀ slot n block, t.Mergeable slot n block → loose = some slot

/-- Of the nodes in use before and after, at most the one in a slot has changed. -/
structure Touches (t : Tree layout) (slot : Nat) (t' : Tree layout) : Prop where
  config_eq : t'.config = t.config
  node_eq : ∀ i, i ≠ slot → t.Live i → t'.Live i → t'.nodes[i]? = t.nodes[i]?

theorem touches_store (hn : t.nodes[slot]? = some n) (e : Handle) (box : Box) :
    t.Touches slot (t.store slot n e box) := by
  constructor
  · rfl
  · intro i hi _ _
    rw [getElem?_store hn, if_neg hi]

theorem touches_withdraw (hn : t.nodes[slot]? = some n) (e : Handle) :
    t.Touches slot (t.withdraw slot n e) := by
  constructor
  · rfl
  · intro i hi _ _
    rw [getElem?_withdraw hn, if_neg hi]

theorem Divides.touches (h : t.Divides slot n.bare block t')
    (hrehouses : t.Rehouses slot n block t') : t.Touches slot t' := by
  constructor
  · exact h.config_eq
  · intro i hi hlive _
    have hout := h.not_mem_of_live hlive
    apply node_ext
    · exact h.frame_other i hi hout
    · have hstay (e : Handle) : t.destination n block e ≠ some i := fun hdest =>
        hout (destination_mem hdest)
      apply Array.toList_inj.mp
      rw [hrehouses.occupants_other i hi]
      simp [hstay]

theorem Merges.touches {f : Node} (h : t.Merges slot f block t') : t.Touches slot t' := by
  constructor
  · exact h.config_eq
  · intro i hi _ hlive
    exact node_ext (h.frame_other i hi hlive) (h.occupants_eq i)

namespace Touches

variable {i : Nat} {m : Node}

theorem needsSplit_eq (h : t.Touches slot t') (hi : i ≠ slot) (hlive : t.Live i)
    (hlive' : t'.Live i) (hm : t'.nodes[i]? = some m) :
    t.nodes[i]? = some m ∧ needsSplit t'.config m = needsSplit t.config m := by
  constructor
  · rw [← h.node_eq i hi hlive hlive', hm]
  · rw [h.config_eq]

/-- A node that can merge now could merge before if neither it nor one of its children is
the one that has changed. -/
theorem mergeable (h : t.Touches slot t') (harena : t.Arena) (harena' : t'.Arena)
    (hmerge : t'.Mergeable i m block) (hi : i ≠ slot) (hlive : t.Live i)
    (hchild : slot ∉ layout.blockSlots block) : t.Mergeable i m block := by
  have hm : t.nodes[i]? = some m := (h.node_eq i hi hlive hmerge.live).symm.trans hmerge.node_eq
  have huse := (harena.link i m.bare block hlive (frame_of_node hm) hmerge.children_eq).1
  have hfew := hmerge.few
  rw [h.config_eq] at hfew
  refine ⟨hlive, hm, hmerge.children_eq, hfew, ?_⟩
  intro child hlt
  obtain ⟨c, hc, hempty⟩ := hmerge.child child hlt
  have hne : layout.firstSlot block + child ≠ slot := fun heq =>
    hchild (Layout.mem_blockSlots.mpr ⟨child, hlt, heq.symm⟩)
  have hsame := h.node_eq _ hne (live_child huse hlt) (live_child (hmerge.inUse harena') hlt)
  exact ⟨c, hsame.symm.trans hc, hempty⟩

end Touches

/-- A child in the block of a node names that node as its parent. -/
theorem Mergeable.parent_eq {i : Nat} {m : Node} (h : t.Mergeable i m block) (harena : t.Arena)
    (hslot : slot ∈ layout.blockSlots block) {f : Node} (hf : t.frame slot = some f) :
    f.parent = some i := by
  obtain ⟨child, hchild, rfl⟩ := Layout.mem_blockSlots.mp hslot
  exact (harena.child_frame h.live (frame_of_node h.node_eq) h.children_eq hchild hf).1

/-- The children of a node that can merge are empty leaves. -/
theorem Mergeable.empty_child {i : Nat} {m : Node} (h : t.Mergeable i m block)
    (hslot : slot ∈ layout.blockSlots block) (hn : t.nodes[slot]? = some n) :
    n.children = none ∧ n.occupants = #[] := by
  obtain ⟨child, hchild, rfl⟩ := Layout.mem_blockSlots.mp hslot
  obtain ⟨c, hc, hempty⟩ := h.child child hchild
  obtain rfl : n = c := Option.some.inj (hn.symm.trans hc)
  exact hempty

namespace Tight

variable {slots : List Nat}

theorem not_mergeable (h : t.Tight slots none) : ¬ t.Mergeable slot n block := by
  intro hmerge
  cases h.firm slot n block hmerge

/-- Storing an entity may overfill its own node, and lets no node merge. -/
theorem store (h : t.Tight [] none) (harena : t.Arena) (hn : t.nodes[slot]? = some n) {e : Handle}
    {box : Box} (hwell : (t.store slot n e box).WellFormed) :
    (t.store slot n e box).Tight [slot] none := by
  have htouches := touches_store hn e box
  have hnode : (t.store slot n e box).nodes[slot]? =
      some { n with occupants := n.occupants.push e } := by
    rw [getElem?_store hn, if_pos rfl]
  constructor
  · intro i m hlive hm hnot
    obtain ⟨hm, hsame⟩ :=
      htouches.needsSplit_eq (fun heq => hnot (List.mem_singleton.mpr heq)) hlive hlive hm
    rw [hsame]
    exact h.settled i m hlive hm (List.not_mem_nil)
  · intro i m block hmerge
    exfalso
    have hout : slot ∉ layout.blockSlots block := fun hmem => by
      have hempty := (hmerge.empty_child hmem hnode).2
      simp at hempty
    by_cases hi : i = slot
    · -- the node itself could have merged with one entity less
      subst hi
      obtain rfl := Option.some.inj (hmerge.node_eq.symm.trans hnode)
      have hfew := hmerge.few
      rw [Array.size_push] at hfew
      have hbefore : t.Mergeable i n block := by
        refine ⟨hmerge.live, hn, hmerge.children_eq, (Nat.le_succ _).trans hfew, ?_⟩
        intro child hchild
        obtain ⟨c, hc, hempty⟩ := hmerge.child child hchild
        have hne : layout.firstSlot block + child ≠ i := fun heq =>
          hout (Layout.mem_blockSlots.mpr ⟨child, hchild, heq.symm⟩)
        have hlive := live_child (hmerge.inUse hwell.arena) hchild
        exact ⟨c, (htouches.node_eq _ hne hlive hlive).symm.trans hc, hempty⟩
      exact h.not_mergeable hbefore
    · have hbefore := htouches.mergeable harena hwell.arena hmerge hi hmerge.live hout
      exact h.not_mergeable hbefore

/-- A withdrawal may let the parent of a leaf merge, or a divided node itself. -/
theorem withdraw (h : t.Tight [] none) (harena : t.Arena) (hlive : t.Live slot)
    (hn : t.nodes[slot]? = some n) {e : Handle} (hwell : (t.withdraw slot n e).WellFormed) :
    (t.withdraw slot n e).Tight [] (if n.isLeaf then n.parent else some slot) := by
  have htouches := touches_withdraw hn e
  have hnode : (t.withdraw slot n e).nodes[slot]? =
      some { n with occupants := swapErase n.occupants e } := by
    rw [getElem?_withdraw hn, if_pos rfl]
  constructor
  · intro i m hi hm _
    by_cases heq : i = slot
    · subst heq
      obtain rfl := Option.some.inj (hm.symm.trans hnode)
      have hbefore := needsSplit_eq_false.mp (h.settled i n hlive hn List.not_mem_nil)
      apply needsSplit_eq_false.mpr
      intro hleaf
      exact (hbefore hleaf).imp_left (size_swapErase_le n.occupants e).trans
    · obtain ⟨hm, hsame⟩ := htouches.needsSplit_eq heq hi hi hm
      rw [hsame]
      exact h.settled i m hi hm List.not_mem_nil
  · intro i m block hmerge
    by_cases heq : i = slot
    · subst heq
      obtain rfl := Option.some.inj (hmerge.node_eq.symm.trans hnode)
      have hdivided : n.children = some block := hmerge.children_eq
      simp [Node.isLeaf, hdivided]
    · by_cases hmem : slot ∈ layout.blockSlots block
      · have hleaf : n.children = none := (hmerge.empty_child hmem hnode).1
        have hparent := hmerge.parent_eq hwell.arena hmem (frame_of_node hnode)
        change n.parent = some i at hparent
        simp [Node.isLeaf, hleaf, hparent]
      · have hbefore := htouches.mergeable harena hwell.arena hmerge heq hmerge.live hmem
        exact absurd hbefore h.not_mergeable

/-- A node that needs no division is done. -/
theorem keep (h : t.Tight (slot :: slots) none) (hn : t.nodes[slot]? = some n)
    (hneeds : needsSplit t.config n = false) : t.Tight slots none := by
  constructor
  · intro i m hlive hm hnot
    by_cases hi : i = slot
    · subst hi
      obtain rfl : n = m := Option.some.inj (hn.symm.trans hm)
      exact hneeds
    · exact h.settled i m hlive hm (List.not_mem_cons_of_ne_of_not_mem hi hnot)
  · exact h.firm

/-- After a division the new children are to be looked at. The divided node cannot merge: it
held too many entities, and those that it holds no longer are in its children. -/
theorem divide (h : t.Tight (slot :: slots) none) (harena : t.Arena) (harena' : t'.Arena)
    (hlive : t.Live slot) (hn : t.nodes[slot]? = some n)
    (hneeds : needsSplit t.config n = true) (hdivides : t.Divides slot n.bare block t')
    (hrehouses : t.Rehouses slot n block t') :
    t'.Tight (layout.blockSlots block ++ slots) none := by
  have htouches := hdivides.touches hrehouses
  obtain ⟨divided, hdivided, hbare⟩ := exists_node_of_frame hdivides.frame_slot
  have hchildren : divided.children = some block := (congrArg Node.children hbare).symm
  have hold {i : Nat} (hlive : t'.Live i) (hnot : i ∉ layout.blockSlots block) : t.Live i :=
    ((hdivides.live_iff i).mp hlive).resolve_right hnot
  constructor
  · intro i m hlive hm hnot
    rw [List.mem_append, not_or] at hnot
    by_cases hi : i = slot
    · subst hi
      obtain rfl : divided = m := Option.some.inj (hdivided.symm.trans hm)
      simp [needsSplit, Node.isLeaf, hchildren]
    · have hbefore := hold hlive hnot.1
      obtain ⟨hm, hsame⟩ := htouches.needsSplit_eq hi hbefore hlive hm
      rw [hsame]
      exact h.settled i m hbefore hm (List.not_mem_cons_of_ne_of_not_mem hi hnot.2)
  · intro i m other hmerge
    exfalso
    by_cases hi : i = slot
    · subst hi
      obtain rfl : divided = m := Option.some.inj (hdivided.symm.trans hmerge.node_eq)
      obtain rfl : block = other := Option.some.inj (hchildren.symm.trans hmerge.children_eq)
      have hkept := hdivides.occupantsAt_eq_of_empty hrehouses hlive fun j hj => by
        obtain ⟨child, hchild, rfl⟩ := Layout.mem_blockSlots.mp hj
        obtain ⟨c, hc, -, hempty⟩ := hmerge.child child hchild
        rw [occupantsAt_of_node hc, hempty]
      have hfew := hmerge.few
      rw [← occupantsAt_of_node hdivided, hkept, hdivides.config_eq] at hfew
      have hmany := size_of_needsSplit hneeds
      omega
    · have hout : i ∉ layout.blockSlots block := fun hmem => by
        obtain ⟨child, hchild, rfl⟩ := Layout.mem_blockSlots.mp hmem
        have hframe := hdivides.frame_child child hchild
        rw [frame_of_node hmerge.node_eq] at hframe
        have hleaf : m.children = none := congrArg Node.children (Option.some.inj hframe)
        cases hleaf.symm.trans hmerge.children_eq
      by_cases hmem : slot ∈ layout.blockSlots other
      · have hleaf := (hmerge.empty_child hmem hdivided).1
        cases hleaf.symm.trans hchildren
      · have hbefore :=
          htouches.mergeable harena harena' hmerge hi (hold hmerge.live hout) hmem
        exact h.not_mergeable hbefore

/-- After a merge only the parent may be merged. -/
theorem merge (h : t.Tight [] (some slot)) (harena : t.Arena) (harena' : t'.Arena)
    (hmergeable : t.Mergeable slot n block) (hmerges : t.Merges slot n.bare block t') :
    t'.Tight [] n.parent := by
  have htouches := hmerges.touches
  obtain ⟨merged, hmerged, hbare⟩ := exists_node_of_frame hmerges.frame_slot
  have hleaf : merged.children = none := (congrArg Node.children hbare).symm
  have hold {i : Nat} (hlive : t'.Live i) : t.Live i :=
    ((live_iff_of_frees hmerges.frees i).mp hlive).1
  constructor
  · intro i m hlive hm _
    by_cases hi : i = slot
    · subst hi
      obtain rfl : merged = m := Option.some.inj (hmerged.symm.trans hm)
      have hfew := hmergeable.few
      rw [← occupantsAt_of_node hmergeable.node_eq, ← hmerges.occupants_eq,
        occupantsAt_of_node hmerged, ← hmerges.config_eq] at hfew
      exact needsSplit_eq_false.mpr fun _ => Or.inl hfew
    · obtain ⟨hm, hsame⟩ := htouches.needsSplit_eq hi (hold hlive) hlive hm
      rw [hsame]
      exact h.settled i m (hold hlive) hm List.not_mem_nil
  · intro i m other hmerge
    have hi : i ≠ slot := by
      rintro rfl
      obtain rfl : merged = m := Option.some.inj (hmerged.symm.trans hmerge.node_eq)
      cases hleaf.symm.trans hmerge.children_eq
    by_cases hmem : slot ∈ layout.blockSlots other
    · have hparent := hmerge.parent_eq harena' hmem hmerges.frame_slot
      exact hparent
    · have hbefore := htouches.mergeable harena harena' hmerge hi (hold hmerge.live) hmem
      exact absurd (Option.some.inj (h.firm i m other hbefore)).symm hi

/-- Records and heights have no part in the shape. -/
theorem recorded {pending : List Nat} {loose : Option Nat} (h : t.Tight pending loose)
    (locations : Std.ExtTreeMap Handle Location) (span : Option Layout.HeightSpan) :
    ({ t with locations, span } : Tree layout).Tight pending loose := by
  constructor
  · exact h.settled
  · intro i m block hmerge
    exact h.firm i m block ⟨hmerge.live, hmerge.node_eq, hmerge.children_eq, hmerge.few,
      hmerge.child⟩

/-- A leaf alone with no entities is tight. -/
theorem of_unused (harena : t.Arena) (hfree : ∀ block, ¬ t.pool.InUse block)
    (hempty : t.occupantsAt rootSlot = #[]) : t.Tight [] none := by
  have hroot {slot : Nat} (hlive : t.Live slot) : slot = rootSlot :=
    hlive.resolve_right fun ⟨block, _, huse, _⟩ => hfree block huse
  constructor
  · intro i m hlive hm _
    obtain rfl := hroot hlive
    apply needsSplit_eq_false.mpr
    intro _
    rw [← occupantsAt_of_node hm, hempty]
    exact Or.inl (Nat.zero_le _)
  · intro i m block hmerge
    exact absurd (hmerge.inUse harena) (hfree block)

end Tight

theorem Divisions.tight {slots : List Nat} {events : List TreeEvent}
    (h : Divisions t slots events t') (hwell : t.WellFormed) (htight : t.Tight slots none) :
    t'.Tight [] none := by
  induction h with
  | nil => exact htight
  | keep _ hn hneeds _ ih => exact ih hwell (htight.keep hn hneeds)
  | divide hlive hn hneeds hdivides hrehouses _ ih =>
      have hwell' := (Splits.of_divides hwell hlive hn hneeds hdivides hrehouses).wellFormed
      have htight' :=
        htight.divide hwell.arena hwell'.arena hlive hn hneeds hdivides hrehouses
      exact ih hwell' htight'

theorem Mergers.tight {start : Option Nat} {events : List TreeEvent}
    (h : Mergers t start events t') (hwell : t.WellFormed) (htight : t.Tight [] start) :
    t'.Tight [] none := by
  induction h with
  | root => exact htight
  | @stop t slot n _ hn hcannot =>
      constructor
      · exact htight.settled
      · intro i m block hmerge
        obtain rfl := Option.some.inj (htight.firm i m block hmerge)
        obtain rfl : n = m := Option.some.inj (hn.symm.trans hmerge.node_eq)
        exact absurd hmerge (hcannot block)
  | merge hmerge hmerges _ ih =>
      have hwell' := hmerges.wellFormed hwell hmerge
      exact ih hwell' (htight.merge hwell.arena hwell'.arena hmerge hmerges)

theorem Inserts.tight {e : Handle} {box : Box} {events : List TreeEvent}
    (h : t.Inserts e box events t') (hwell : t.WellFormed) (htight : t.Tight [] none) :
    t'.Tight [] none := by
  obtain ⟨hnew, -, -, hlive, hn, hfits, hdivisions⟩ := h
  have hwell' := hwell.store hlive hn hnew hfits
  exact hdivisions.tight hwell' (htight.store hwell.arena hn hwell')

theorem Removes.tight {e : Handle} {events : List TreeEvent} (h : t.Removes e events t')
    (hwell : t.WellFormed) (htight : t.Tight [] none) : t'.Tight [] none := by
  cases h with
  | untracked => exact htight
  | stored hrecord hn hmergers =>
      have hwell' := hwell.withdraw hn hrecord
      have hlive := hwell.placed.live e _ _ hrecord
      exact hmergers.tight hwell' (htight.withdraw hwell.arena hlive hn hwell')

theorem Updates.tight {e : Handle} {box : Box} {events : List TreeEvent}
    (h : t.Updates e box events t') (hwell : t.WellFormed) (htight : t.Tight [] none) :
    t'.Tight [] none := by
  have hspan : (t.widened box).WellFormed := hwell.withSpan _
  have hwide : (t.widened box).Tight [] none := htight.recorded t.locations _
  cases h with
  | insert hinserts => exact hinserts.tight hspan hwide
  | stay => exact hwide.recorded _ _
  | move _ _ _ hremoves hinserts =>
      have hwell' := (hremoves.spec hspan).1
      exact hinserts.tight hwell' (hremoves.tight hspan hwide)

/-- Each change keeps the shape tight. -/
theorem Transition.tight {change : Change} {events : List TreeEvent}
    (h : t.Transition change events t') (hwell : t.WellFormed) (htight : t.Tight [] none) :
    t'.Tight [] none := by
  cases h with
  | update hupdates => exact hupdates.tight hwell htight
  | remove hremoves => exact hremoves.tight hwell htight
  | clear =>
      have hwell' := (wellFormed_clear hwell).1
      apply Tight.of_unused hwell'.arena (not_inUse_clear hwell.arena)
      exact hwell'.placed.occupantsAt_of_untracked
        (fun _ => Std.ExtTreeMap.getElem?_empty) rootSlot

theorem tight_run (hwell : t.WellFormed) (htight : t.Tight [] none) (changes : List Change) :
    (SpatialIndex.run t changes).Tight [] none := by
  induction changes generalizing t with
  | nil => exact htight
  | cons change changes ih =>
      obtain ⟨t', events, hstep, htransition⟩ := exists_transition hwell change
      rw [SpatialIndex.run_cons, apply_of_step hstep]
      exact ih (htransition.spec hwell).1 (htransition.tight hwell htight)

/-- A tight tree without entities has no divided nodes: the lowest one could take back its
children. -/
theorem Tight.undivided (h : t.Tight [] none) (hwell : t.WellFormed)
    (hempty : ∀ i, t.occupantsAt i = #[]) {levels : Nat} (hallows : t.Allows levels slot n) :
    n.children = none := by
  induction levels generalizing slot n with
  | zero => exact hallows.leaf_of_zero hwell.arena
  | succ levels ih =>
      cases hblock : n.children with
      | none => rfl
      | some block =>
          have hmerge : t.Mergeable slot n block := by
            refine ⟨hallows.live, hallows.node_eq, hblock, ?_, ?_⟩
            · rw [← occupantsAt_of_node hallows.node_eq, hempty]
              exact Nat.zero_le _
            · intro child hchild
              obtain ⟨m, hbelow, -⟩ := hallows.exists_child hwell.arena hblock hchild
              have hnone : m.occupants = #[] := by
                rw [← occupantsAt_of_node hbelow.node_eq, hempty]
              exact ⟨m, hbelow.node_eq, ih hbelow, hnone⟩
          exact absurd hmerge h.not_mergeable

/-- A tight tree without entities uses no block. -/
theorem Tight.not_inUse (h : t.Tight [] none) (hwell : t.WellFormed)
    (hempty : ∀ i, t.occupantsAt i = #[]) (block : Nat) : ¬ t.pool.InUse block := by
  intro huse
  obtain ⟨slot, f, hlive, hf, hblock⟩ := hwell.arena.owner block huse
  obtain ⟨n, hn, rfl⟩ := exists_node_of_frame hf
  have hallows : t.Allows t.config.maxDepth slot n := ⟨hlive, hn, Nat.le_add_left _ _⟩
  cases (h.undivided hwell hempty hallows).symm.trans hblock

/-- Without pooling the range of the pool ends with a block in use after any changes. -/
theorem compact_run (hwell : t.WellFormed) (hpooling : t.pool.pooling = false)
    (hcompact : t.pool.Compact) (changes : List Change) :
    (SpatialIndex.run t changes).pool.Compact := by
  obtain ⟨events, -, hledger⟩ := exists_tryRun hwell changes
  exact hledger.compact hwell.arena.pool_sound hpooling hcompact

/-- A divided node that cannot take back its children holds too many entities itself, or has a
child that is divided or holds some. -/
theorem exists_tenant (hwell : t.WellFormed) (hlive : t.Live slot) (hn : t.nodes[slot]? = some n)
    (hblock : n.children = some block) (hcannot : ¬ t.Mergeable slot n block) :
    t.canMerge slot = .ok false ∧
      (t.config.maxOccupants < n.occupants.size ∨ ∃ child < layout.arity, ∃ m : Node,
        t.nodes[layout.firstSlot block + child]? = some m ∧
          (m.children ≠ none ∨ m.occupants ≠ #[])) := by
  obtain ⟨can, hcan, hmergeable⟩ := exists_canMerge hwell.arena hlive hn hblock
  constructor
  · cases can with
    | false => exact hcan
    | true => exact absurd (hmergeable.mp rfl) hcannot
  · by_contra hloose
    rw [not_or, not_lt] at hloose
    obtain ⟨hfew, hchildren⟩ := hloose
    apply hcannot
    refine ⟨hlive, hn, hblock, hfew, ?_⟩
    intro child hchild
    obtain ⟨huse, -⟩ := hwell.arena.link slot n.bare block hlive (frame_of_node hn) hblock
    obtain ⟨m, hm⟩ := hwell.arena.exists_node (live_child huse hchild)
    refine ⟨m, hm, ?_⟩
    by_contra hnot
    rw [not_and_or] at hnot
    exact hchildren ⟨child, hchild, m, hm, hnot⟩

/-- A tree that uses no block is its root. -/
theorem root_alone (harena : t.Arena) (hfree : ∀ block, ¬ t.pool.InUse block) :
    (∀ slot, t.Reachable slot ↔ slot = rootSlot) ∧ t.pool.live = 0 := by
  constructor
  · intro slot
    rw [reachable_iff_live harena]
    constructor
    · intro hlive
      exact hlive.resolve_right fun ⟨block, _, huse, _⟩ => hfree block huse
    · rintro rfl
      exact live_root t
  · rw [← length_liveBlocks harena, List.length_eq_zero_iff]
    apply List.eq_nil_iff_forall_not_mem.mpr
    intro block hblock
    exact hfree block (mem_liveBlocks.mp hblock)

/-- In every state that changes lead to, a reachable leaf holds no more entities than a leaf
may, or is at the greatest depth; and no reachable divided node can take back its children,
because it holds too many entities itself or one of its children is divided or holds some.
So a tree that tracks nothing is the leaf of the whole world alone, and without pooling
nothing else is left in the array and in the range of the pool. -/
theorem tight_of_run {config : TreeConfig} {t₀ : Tree layout}
    (hcreate : (create layout config).1 = .ok t₀) (changes : List Change) :
    let t := SpatialIndex.run t₀ changes
    (∀ (slot : Nat) (n : Node), t.Reachable slot → t.nodes[slot]? = some n → n.children = none →
      n.occupants.size ≤ config.maxOccupants ∨ n.depth = config.maxDepth) ∧
    (∀ (slot block : Nat) (n : Node), t.Reachable slot → t.nodes[slot]? = some n →
      n.children = some block → t.canMerge slot = .ok false ∧
        (config.maxOccupants < n.occupants.size ∨ ∃ child < layout.arity, ∃ m : Node,
          t.nodes[layout.firstSlot block + child]? = some m ∧
            (m.children ≠ none ∨ m.occupants ≠ #[]))) ∧
    ((∀ e, trackedBoxes changes e = none) →
      t.nodes[rootSlot]? = some (.leaf (layout.project config.world) 0 none) ∧
      (∀ slot, t.Reachable slot ↔ slot = rootSlot) ∧ t.pool.live = 0 ∧
      (config.pooling = false → t.nodes.size = 1 ∧ t.pool.highWater = 0)) := by
  intro t
  obtain ⟨hwell, hconfig, hbox⟩ := wellFormed_of_create hcreate changes
  obtain ⟨rfl, hworld⟩ := eq_empty_of_create hcreate
  have hstart : (empty config : Tree layout).WellFormed := wellFormed_empty hworld
  have hunused (block : Nat) : ¬ (empty config : Tree layout).pool.InUse block :=
    fun huse => Nat.not_lt_zero block huse.1
  have htight : t.Tight [] none :=
    tight_run hstart (.of_unused hstart.arena hunused rfl) changes
  change t.WellFormed at hwell
  change t.config = config at hconfig
  refine ⟨?_, ?_, ?_⟩
  · intro slot n hreachable hn hleaf
    have hlive := (reachable_iff_live hwell.arena slot).mp hreachable
    have hsettled := htight.settled slot n hlive hn List.not_mem_nil
    have hdepth := hwell.arena.depth_le slot n.bare hlive (frame_of_node hn)
    rw [hconfig] at hsettled hdepth
    exact (needsSplit_eq_false.mp hsettled hleaf).imp_right (le_antisymm hdepth)
  · intro slot block n hreachable hn hblock
    have hlive := (reachable_iff_live hwell.arena slot).mp hreachable
    have htenant := exists_tenant hwell hlive hn hblock htight.not_mergeable
    rwa [hconfig] at htenant
  · intro huntracked
    have hnone (e : Handle) : t.locations[e]? = none := by
      rw [← boxOf_eq_none]
      exact (congrFun hbox e).trans (huntracked e)
    have hempty := hwell.placed.occupantsAt_of_untracked hnone
    have hfree := htight.not_inUse hwell hempty
    obtain ⟨hreachable, hlive⟩ := root_alone hwell.arena hfree
    refine ⟨?_, hreachable, hlive, ?_⟩
    · rw [node_of_frame (hwell.arena.frame_root hfree), hempty, ← hconfig]
      rfl
    · intro hpooling
      have hcompact : t.pool.Compact :=
        compact_run hstart hpooling (BlockPool.compact_empty config.pooling) changes
      have htop := BlockPool.highWater_eq_zero hcompact hfree
      constructor
      · rw [hwell.arena.size_eq, htop, Layout.firstSlot, Nat.zero_mul]
      · exact htop

/-- When all entities of a divided octree are gone, nothing but its root is left. -/
theorem tight_of_run_emptied :
    let t : Octree := SpatialIndex.run (empty { maxOccupants := 1, pooling := false })
      [.update ⟨1, 0⟩ (.splat (-10)) none, .update ⟨2, 0⟩ (.splat 10) none, .remove ⟨1, 0⟩,
        .remove ⟨2, 0⟩]
    t.nodes.size = 1 ∧ t.pool.highWater = 0 := by
  have hcreate : (create .oct { maxOccupants := 1, pooling := false }).1 =
      .ok (empty { maxOccupants := 1, pooling := false }) := create_eq_ok (by decide +kernel)
  obtain ⟨-, -, hempty⟩ := tight_of_run hcreate
    [.update ⟨1, 0⟩ (.splat (-10)) none, .update ⟨2, 0⟩ (.splat 10) none, .remove ⟨1, 0⟩,
      .remove ⟨2, 0⟩]
  have huntracked (e : Handle) : trackedBoxes
      [.update ⟨1, 0⟩ (.splat (-10)) none, .update ⟨2, 0⟩ (.splat 10) none, .remove ⟨1, 0⟩,
        .remove ⟨2, 0⟩] e = none := by
    simp only [trackedBoxes, List.foldl_cons, List.foldl_nil, Change.track]
    split_ifs <;> rfl
  exact (hempty huntracked).2.2.2 rfl

end Tree

end Broadphase
