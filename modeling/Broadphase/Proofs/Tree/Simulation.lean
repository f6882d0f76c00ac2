import Mathlib
import Broadphase.Proofs.Tree.Renaming

/-!
The steps of changes keep one tree a renaming of the other. Storing and taking out an entity
keep the renaming, a division extends it by the two blocks that the pools hand out, whatever
their numbers are, and a merge leaves it as it is for the blocks that stay in use.
-/

namespace Broadphase

namespace Tree

variable {layout : Layout} {t u t' u' : Tree layout} {ρ : Nat → Nat} {slot block : Nat} {n : Node}

namespace Mirrors

theorem record_of (h : Mirrors ρ t u) {e : Handle} {box : Box}
    (hrecord : t.locations[e]? = some ⟨slot, box⟩) :
    u.locations[e]? = some ⟨layout.renameSlot ρ slot, box⟩ := by
  rw [h.record_eq, hrecord]
  rfl

/-- A change of lists and records alone keeps the renaming. -/
theorem of_entities (h : Mirrors ρ t u) (left : t'.WellFormed) (right : u'.WellFormed)
    (hconfig : t'.config = t.config ∧ u'.config = u.config) (hspan : u'.span = t'.span)
    (hpool : t'.pool = t.pool ∧ u'.pool = u.pool) (hframe : ∀ i, t'.frame i = t.frame i)
    (hframe' : ∀ i, u'.frame i = u.frame i)
    (hoccupants : ∀ i, t.Live i → u'.occupantsAt (layout.renameSlot ρ i) = t'.occupantsAt i)
    (hrecord : ∀ e : Handle, u'.locations[e]? =
      (t'.locations[e]?).map (Location.rename layout ρ)) : Mirrors ρ t' u' := by
  have hlive (i : Nat) : t'.Live i ↔ t.Live i := by rw [Live, Live, hpool.1]
  refine ⟨left, right, ?_, hspan, ?_, ?_, ?_, ?_, hrecord⟩
  · rw [hconfig.1, hconfig.2]
    exact h.config_eq
  · rw [hpool.1, hpool.2]
    exact h.inUse
  · rw [hpool.1]
    exact h.injective
  · simp only [hlive, hframe, hframe']
    exact h.frame_eq
  · simp only [hlive]
    exact hoccupants

/-- A list after one node has got another one. -/
private theorem occupants_setNode (h : Mirrors ρ t u) {t₁ u₁ : Tree layout}
    (hnodes : t₁.nodes = t.nodes) (hnodes' : u₁.nodes = u.nodes) (hlive : t.Live slot)
    (hn : t.nodes[slot]? = some n) (occupants : Array Handle) {i : Nat} (hi : t.Live i) :
    (u₁.setNode (layout.renameSlot ρ slot)
        { n.rename layout ρ with occupants }).occupantsAt (layout.renameSlot ρ i) =
      (t₁.setNode slot { n with occupants }).occupantsAt i := by
  have hlt := lt_size_of_node hn
  have hlt' := lt_size_of_node (h.node_eq hlive hn)
  rw [← hnodes] at hlt
  rw [← hnodes'] at hlt'
  have hold : u₁.occupantsAt (layout.renameSlot ρ i) = t₁.occupantsAt i := by
    rw [occupantsAt, occupantsAt, hnodes, hnodes']
    exact h.occupants_eq i hi
  rw [occupantsAt_setNode hlt', occupantsAt_setNode hlt]
  exact if_congr (h.slot_inj hi hlive) rfl hold

theorem store (h : Mirrors ρ t u) {e : Handle} {box : Box} (hlive : t.Live slot)
    (hn : t.nodes[slot]? = some n) (hnew : t.locations[e]? = none)
    (hfits : Fits layout slot n.bare (layout.project box)) :
    Mirrors ρ (t.store slot n e box)
      (u.store (layout.renameSlot ρ slot) (n.rename layout ρ) e box) := by
  have hm := h.node_eq hlive hn
  have hnew' : u.locations[e]? = none := by
    rw [h.record_eq, hnew]
    rfl
  refine h.of_entities (h.left.store hlive hn hnew hfits)
    (h.right.store (h.live hlive) hm hnew' ((h.fits_iff hlive n.bare _).mpr hfits)) ⟨rfl, rfl⟩
    h.span_eq ⟨rfl, rfl⟩ (frame_setNode_occupants hn _) (frame_setNode_occupants hm _) ?_ ?_
  · intro i hi
    exact h.occupants_setNode rfl rfl hlive hn _ hi
  · intro other
    change (u.locations.insert e _)[other]? = ((t.locations.insert e _)[other]?).map _
    rw [record_insert, record_insert, h.record_eq]
    split_ifs <;> rfl

theorem withdraw (h : Mirrors ρ t u) {e : Handle} {box : Box} (hn : t.nodes[slot]? = some n)
    (hold : t.locations[e]? = some ⟨slot, box⟩) :
    Mirrors ρ (t.withdraw slot n e)
      (u.withdraw (layout.renameSlot ρ slot) (n.rename layout ρ) e) := by
  have hlive := h.left.placed.live e slot box hold
  have hm := h.node_eq hlive hn
  refine h.of_entities (h.left.withdraw hn hold) (h.right.withdraw hm (h.record_of hold)) ⟨rfl, rfl⟩
    h.span_eq ⟨rfl, rfl⟩
    (frame_setNode_occupants (t := { t with locations := t.locations.erase e }) hn _)
    (frame_setNode_occupants (t := { u with locations := u.locations.erase e }) hm _) ?_ ?_
  · intro i hi
    exact h.occupants_setNode rfl rfl hlive hn _ hi
  · intro other
    change (u.locations.erase e)[other]? = ((t.locations.erase e)[other]?).map _
    rw [record_erase, record_erase, h.record_eq]
    split_ifs <;> rfl

theorem rebox (h : Mirrors ρ t u) {e : Handle} {old box : Box} {f : Node}
    (hf : t.frame slot = some f) (hold : t.locations[e]? = some ⟨slot, old⟩)
    (hfits : Fits layout slot f (layout.project box)) :
    Mirrors ρ (t.rebox slot e box) (u.rebox (layout.renameSlot ρ slot) e box) := by
  have hlive := h.left.placed.live e slot old hold
  have hfits' := (h.fits_iff hlive f _).mpr hfits
  refine h.of_entities (h.left.rebox hf hold hfits)
    (h.right.rebox (h.frame_eq slot f hlive hf) (h.record_of hold) hfits')
    ⟨rfl, rfl⟩ h.span_eq ⟨rfl, rfl⟩ (fun _ => rfl) (fun _ => rfl) h.occupants_eq ?_
  intro other
  change (u.locations.insert e _)[other]? = ((t.locations.insert e _)[other]?).map _
  rw [record_insert, record_insert, h.record_eq]
  split_ifs <;> rfl

theorem withSpan (h : Mirrors ρ t u) (span : Option Layout.HeightSpan) :
    Mirrors ρ ({ t with span } : Tree layout) { u with span } :=
  h.of_entities (h.left.withSpan span) (h.right.withSpan span) ⟨rfl, rfl⟩ rfl ⟨rfl, rfl⟩
    (fun _ => rfl) (fun _ => rfl) h.occupants_eq h.record_eq

section Division

variable {block' : Nat}

/-- The child that an entity moves to has the same number in both trees. -/
theorem destination_eq (h : Mirrors ρ t u) {ρ' : Nat → Nat} (hnew : ρ' block = block')
    (e : Handle) :
    u.destination (n.rename layout ρ) block' e =
      (t.destination n block e).map (layout.renameSlot ρ') := by
  rw [destination, destination, h.boxOf_eq]
  cases t.boxOf e with
  | none => rfl
  | some box =>
      simp only [Option.bind_some, Node.rename_bounds]
      by_cases hin : n.bounds.contains (layout.project box) = true
      · cases hshared : layout.sharedChild? n.bounds.center (layout.project box) with
        | none => simp only [hin, if_true, Option.map_none]
        | some child =>
            simp only [hin, if_true, Option.map_some]
            rw [Layout.renameSlot_child (Layout.sharedChild?_lt_arity hshared), hnew]
      · simp only [hin, if_false, Option.map_none, Bool.false_eq_true]

/-- A pair of divisions, and a renaming of the blocks before them with the two new blocks
added. -/
structure Extends (ρ ρ' : Nat → Nat) (t u : Tree layout) (slot block block' : Nat) (n : Node)
    (t' u' : Tree layout) : Prop where
  live : t.Live slot
  node_eq : t.nodes[slot]? = some n
  divides : t.Divides slot n.bare block t'
  rehouses : t.Rehouses slot n block t'
  divides' : u.Divides (layout.renameSlot ρ slot) (n.rename layout ρ).bare block' u'
  rehouses' : u.Rehouses (layout.renameSlot ρ slot) (n.rename layout ρ) block' u'
  same : ∀ other, t.pool.InUse other → ρ' other = ρ other
  new : ρ' block = block'

namespace Extends

variable {ρ' : Nat → Nat} (h : Mirrors ρ t u) (hext : Extends ρ ρ' t u slot block block' n t' u')

include h hext

theorem inUse (b : Nat) (hb : t'.pool.InUse b) : u'.pool.InUse (ρ' b) := by
  rw [hext.divides'.takes.inUse_iff]
  rcases (hext.divides.takes.inUse_iff b).mp hb with hb | rfl
  · exact Or.inl (hext.same b hb ▸ h.inUse b hb)
  · exact Or.inr hext.new

theorem injective (b c : Nat) (hb : t'.pool.InUse b) (hc : t'.pool.InUse c)
    (heq : ρ' b = ρ' c) : b = c := by
  have hfree {other : Nat} (huse : t.pool.InUse other) : ρ other ≠ block' := by
    rintro rfl
    exact hext.divides'.takes.free_before (h.inUse other huse)
  rcases (hext.divides.takes.inUse_iff b).mp hb with hb | rfl <;>
    rcases (hext.divides.takes.inUse_iff c).mp hc with hc | rfl
  · rw [hext.same b hb, hext.same c hc] at heq
    exact h.injective b c hb hc heq
  · rw [hext.same b hb, hext.new] at heq
    exact absurd heq (hfree hb)
  · rw [hext.same c hc, hext.new] at heq
    exact absurd heq.symm (hfree hc)
  · rfl

theorem frame_eq (i : Nat) (f : Node) (hi : t'.Live i) (hf : t'.frame i = some f) :
    u'.frame (layout.renameSlot ρ' i) = some (f.rename layout ρ') := by
  have hslot := renameSlot_congr hext.same hext.live
  rcases hext.divides.frame_cases hi hf with
    ⟨rfl, rfl⟩ | ⟨child, hchild, rfl, rfl⟩ | ⟨hne, hold, hf⟩
  · have hsame := rename_congr hext.same h.left.arena hext.live (frame_of_node hext.node_eq)
    have hparent : n.parent.map (layout.renameSlot ρ') = n.parent.map (layout.renameSlot ρ) :=
      congrArg Node.parent hsame
    rw [hslot, hext.divides'.frame_slot, ← hext.new]
    simp only [Node.rename, Node.bare, hparent, Option.map_some]
  · rw [Layout.renameSlot_child hchild, hext.new, hext.divides'.frame_child child hchild, ← hslot]
    rfl
  · rw [rename_congr hext.same h.left.arena hold hf, renameSlot_congr hext.same hold,
      ← h.frame_eq i f hold hf]
    exact hext.divides'.frame_other _ (fun heq => hne ((h.slot_inj hold hext.live).mp heq))
      (hext.divides'.not_mem_of_live (h.live hold))

theorem occupants_eq (i : Nat) (hi : t'.Live i) :
    u'.occupantsAt (layout.renameSlot ρ' i) = t'.occupantsAt i := by
  have hslot := renameSlot_congr hext.same hext.live
  have hlive : t'.Live slot := (hext.divides.live_iff slot).mpr (Or.inl hext.live)
  have hinj {j k : Nat} (hj : t'.Live j) (hk : t'.Live k) :=
    renameSlot_inj (hext.injective h) hj hk
  apply Array.toList_inj.mp
  by_cases hne : i = slot
  · subst hne
    rw [hslot, hext.rehouses'.occupants_slot, hext.rehouses.occupants_slot]
    simp only [h.destination_eq hext.new, Node.rename_occupants, Option.map_eq_none_iff]
  · have hne' : layout.renameSlot ρ' i ≠ layout.renameSlot ρ slot := by
      rw [← hslot]
      exact fun heq => hne ((hinj hi hlive).mp heq)
    have hold : u.occupantsAt (layout.renameSlot ρ' i) = t.occupantsAt i := by
      rcases (hext.divides.live_iff i).mp hi with hbefore | hmem
      · rw [renameSlot_congr hext.same hbefore, h.occupants_eq i hbefore]
      · -- nothing is stored in the new block yet
        obtain ⟨child, hchild, rfl⟩ := Layout.mem_blockSlots.mp hmem
        rw [h.left.placed.occupantsAt_eq_empty fun hlive =>
            hext.divides.takes.free_before ((live_child_iff hchild).mp hlive),
          Layout.renameSlot_child hchild, hext.new, h.right.placed.occupantsAt_eq_empty
            fun hlive => hext.divides'.takes.free_before ((live_child_iff hchild).mp hlive)]
    have hdest (e : Handle) :
        (t.destination n block e).map (layout.renameSlot ρ') = some (layout.renameSlot ρ' i) ↔
          t.destination n block e = some i := by
      rw [Option.map_eq_some_iff]
      constructor
      · rintro ⟨j, hj, heq⟩
        have hnew : t'.Live j := (hext.divides.live_iff j).mpr (Or.inr (destination_mem hj))
        rw [hj, (hinj hnew hi).mp heq]
      · intro hj
        exact ⟨i, hj, rfl⟩
    rw [hext.rehouses'.occupants_other _ hne', hext.rehouses.occupants_other i hne, hold]
    simp only [h.destination_eq hext.new, Node.rename_occupants, hdest]

theorem record_eq (e : Handle) :
    u'.locations[e]? = (t'.locations[e]?).map (Location.rename layout ρ') := by
  have hold (location : Location) (hrecord : t.locations[e]? = some location) :
      location.rename layout ρ = location.rename layout ρ' := by
    have hlive := h.left.placed.live e location.slot location.bounds hrecord
    rw [Location.rename, Location.rename, renameSlot_congr hext.same hlive]
  rw [hext.rehouses'.record_eq, hext.rehouses.record_eq, h.record_eq, h.destination_eq hext.new,
    Node.rename_occupants]
  cases hrecord : t.locations[e]? with
  | none => split_ifs <;> rfl
  | some location =>
      split_ifs
      · rw [Option.map_some, hold location hrecord]
        cases t.destination n block e <;> rfl
      · rw [Option.map_some, hold location hrecord]
        rfl

end Extends

/-- Dividing corresponding leaves extends the renaming by the new blocks. -/
theorem divide (h : Mirrors ρ t u) {ρ' : Nat → Nat}
    (hext : Extends ρ ρ' t u slot block block' n t' u') (hleaf : n.children = none)
    (hdepth : n.depth < t.config.maxDepth) : Mirrors ρ' t' u' := by
  have hleaf' : (n.rename layout ρ).children = none := by
    rw [Node.rename_children, hleaf]
    rfl
  refine ⟨h.left.divide hext.live hext.node_eq hleaf hdepth hext.divides hext.rehouses,
    h.right.divide (h.live hext.live) (h.node_eq hext.live hext.node_eq) hleaf'
      (h.maxDepth_eq ▸ hdepth) hext.divides' hext.rehouses', ?_, ?_, hext.inUse h,
    hext.injective h, hext.frame_eq h, hext.occupants_eq h, hext.record_eq h⟩
  · rw [hext.divides'.config_eq, hext.divides.config_eq]
    exact h.config_eq
  · rw [hext.rehouses'.span_eq, hext.rehouses.span_eq]
    exact h.span_eq

end Division

/-- Merging corresponding nodes keeps the renaming. -/
theorem merge (h : Mirrors ρ t u) (hmerge : t.Mergeable slot n block)
    (hmerges : t.Merges slot n.bare block t')
    (hmerge' : u.Mergeable (layout.renameSlot ρ slot) (n.rename layout ρ) (ρ block))
    (hmerges' : u.Merges (layout.renameSlot ρ slot) (n.rename layout ρ).bare (ρ block) u') :
    Mirrors ρ t' u' := by
  have hinUse (b : Nat) (hb : t'.pool.InUse b) : u'.pool.InUse (ρ b) := by
    obtain ⟨hold, hne⟩ := (hmerges.frees.inUse_iff b).mp hb
    refine (hmerges'.frees.inUse_iff _).mpr ⟨h.inUse b hold, fun heq => hne ?_⟩
    exact h.injective b block hold (hmerge.inUse h.left.arena) heq
  have hlive {i : Nat} (hi : t'.Live i) : t.Live i := ((live_iff_of_frees hmerges.frees i).mp hi).1
  refine ⟨hmerges.wellFormed h.left hmerge, hmerges'.wellFormed h.right hmerge', ?_, ?_, hinUse,
    ?_, ?_, ?_, ?_⟩
  · rw [hmerges.config_eq, hmerges'.config_eq]
    exact h.config_eq
  · rw [hmerges.span_eq, hmerges'.span_eq]
    exact h.span_eq
  · intro b c hb hc
    exact h.injective b c ((hmerges.frees.inUse_iff b).mp hb).1
      ((hmerges.frees.inUse_iff c).mp hc).1
  · intro i f hi hf
    rcases hmerges.frame_cases hi hf with ⟨rfl, rfl⟩ | ⟨hne, hold, hf⟩
    · exact hmerges'.frame_slot
    · rw [← h.frame_eq i f hold hf]
      exact hmerges'.frame_other _ (fun heq => hne ((h.slot_inj hold hmerge.live).mp heq))
        (live_rename hinUse hi)
  · intro i hi
    rw [hmerges.occupants_eq, hmerges'.occupants_eq]
    exact h.occupants_eq i (hlive hi)
  · intro e
    rw [hmerges.locations_eq, hmerges'.locations_eq]
    exact h.record_eq e

theorem needsSplit_eq (h : Mirrors ρ t u) (n : Node) :
    needsSplit u.config (n.rename layout ρ) = needsSplit t.config n := by
  rw [needsSplit, needsSplit, Node.rename_isLeaf, h.maxOccupants_eq, h.maxDepth_eq]
  rfl

/-- A node that can merge corresponds to one that can. -/
theorem mergeable (h : Mirrors ρ t u) (hmerge : t.Mergeable slot n block) :
    u.Mergeable (layout.renameSlot ρ slot) (n.rename layout ρ) (ρ block) := by
  have hfew := hmerge.few
  rw [← h.maxOccupants_eq] at hfew
  refine ⟨h.live hmerge.live, h.node_eq hmerge.live hmerge.node_eq, ?_, hfew, ?_⟩
  · rw [Node.rename_children, hmerge.children_eq, Option.map_some]
  · intro child hchild
    obtain ⟨c, hc, hleaf, hempty⟩ := hmerge.child child hchild
    have hc' := h.node_eq (live_child (hmerge.inUse h.left.arena) hchild) hc
    rw [Layout.renameSlot_child hchild] at hc'
    refine ⟨_, hc', ?_, hempty⟩
    rw [Node.rename_children, hleaf, Option.map_none]

/-- A node that can merge corresponds only to one that can. -/
theorem exists_mergeable (h : Mirrors ρ t u) {block' : Nat} (hlive : t.Live slot)
    (hn : t.nodes[slot]? = some n)
    (hmerge : u.Mergeable (layout.renameSlot ρ slot) (n.rename layout ρ) block') :
    ∃ block, t.Mergeable slot n block := by
  have hfew := hmerge.few
  rw [h.maxOccupants_eq] at hfew
  obtain ⟨block, hblock, rfl⟩ := Option.map_eq_some_iff.mp hmerge.children_eq
  refine ⟨block, hlive, hn, hblock, hfew, ?_⟩
  intro child hchild
  obtain ⟨huse, -⟩ := h.left.arena.link slot n.bare block hlive (frame_of_node hn) hblock
  obtain ⟨c, hc⟩ := h.left.arena.exists_node (live_child huse hchild)
  have hc' := h.node_eq (live_child huse hchild) hc
  rw [Layout.renameSlot_child hchild] at hc'
  obtain ⟨m, hm, hleaf, hempty⟩ := hmerge.child child hchild
  obtain rfl := Option.some.inj (hc'.symm.trans hm)
  rw [Node.rename_children, Option.map_eq_none_iff] at hleaf
  exact ⟨c, hc, hleaf, hempty⟩

end Mirrors

end Tree

end Broadphase
