import Mathlib
import Broadphase.Tree.Query
import Broadphase.Tree.Removal
import Broadphase.Proofs.History
import Broadphase.Proofs.Tree.Arena

/-!
The invariant of the entities in a tree. The record of an entity and the lists of
the nodes agree, every record names a slot in use, and the node there is one
where the entity belongs. Storing an entity, replacing its box and taking it out
keep the invariant.
-/

namespace Broadphase

namespace Tree

variable {layout : Layout} {t t' : Tree layout}

/-- Whether a box belongs to a node: one that is not in the world to the root,
and one that is in the node to it if no child holds it whole. -/
def Fits (layout : Layout) (slot : Nat) (n : Node) (box : Box) : Prop :=
  (slot = rootSlot ∧ n.bounds.contains box = false) ∨
    (n.bounds.contains box = true ∧
      (n.children = none ∨ layout.sharedChild? n.bounds.center box = none))

/-- The entities are where their records say, and belong there. -/
structure Placed (t : Tree layout) : Prop where
  stored_iff : ∀ (e : Handle) slot,
    e ∈ t.occupantsAt slot ↔ ∃ box, t.locations[e]? = some ⟨slot, box⟩
  nodup : ∀ slot, (t.occupantsAt slot).toList.Nodup
  live : ∀ (e : Handle) slot box, t.locations[e]? = some ⟨slot, box⟩ → t.Live slot
  fits : ∀ (e : Handle) slot box f, t.locations[e]? = some ⟨slot, box⟩ → t.frame slot = some f →
    Fits layout slot f (layout.project box)

/-- The invariant of a tree. -/
structure WellFormed (t : Tree layout) : Prop where
  arena : t.Arena
  placed : t.Placed

def boxOf (t : Tree layout) (e : Handle) : Option Box := (t.locations[e]?).map Location.bounds

theorem boxOf_of_record {e : Handle} {slot : Nat} {box : Box}
    (h : t.locations[e]? = some ⟨slot, box⟩) : t.boxOf e = some box := by
  rw [boxOf, h, Option.map_some]

theorem exists_record {e : Handle} {box : Box} (h : t.boxOf e = some box) :
    ∃ slot, t.locations[e]? = some ⟨slot, box⟩ := by
  obtain ⟨⟨slot, bounds⟩, hrecord, rfl⟩ := Option.map_eq_some_iff.mp h
  exact ⟨slot, hrecord⟩

theorem boxOf_eq_none {e : Handle} : t.boxOf e = none ↔ t.locations[e]? = none :=
  Option.map_eq_none_iff

/-- What a change of one entity does to the settings and the boxes. -/
structure Tracks (t : Tree layout) (e : Handle) (box : Option Box) (t' : Tree layout) : Prop where
  config_eq : t'.config = t.config
  box_eq : ∀ other, t'.boxOf other = if other = e then box else t.boxOf other

theorem Placed.occupantsAt_eq_empty (h : t.Placed) {slot : Nat} (hlive : ¬ t.Live slot) :
    t.occupantsAt slot = #[] := by
  apply Array.eq_empty_iff_forall_not_mem.mpr
  intro e he
  obtain ⟨box, hrecord⟩ := (h.stored_iff e slot).mp he
  exact hlive (h.live e slot box hrecord)

theorem Placed.occupantsAt_of_untracked (h : t.Placed)
    (hnone : ∀ e : Handle, t.locations[e]? = none) (slot : Nat) : t.occupantsAt slot = #[] := by
  apply Array.eq_empty_iff_forall_not_mem.mpr
  intro e he
  obtain ⟨box, hrecord⟩ := (h.stored_iff e slot).mp he
  cases (hnone e).symm.trans hrecord

section SetNode

variable {slot : Nat} {n : Node}

theorem getElem?_setNode (hslot : slot < t.nodes.size) (i : Nat) :
    (t.setNode slot n).nodes[i]? = if i = slot then some n else t.nodes[i]? := by
  change (t.nodes.setIfInBounds slot n)[i]? = _
  rw [Array.getElem?_setIfInBounds]
  split_ifs with h h' h' <;> first | rfl | omega

theorem frame_setNode (hslot : slot < t.nodes.size) (i : Nat) :
    (t.setNode slot n).frame i = if i = slot then some n.bare else t.frame i := by
  rw [frame, getElem?_setNode hslot]
  split_ifs <;> rfl

theorem occupantsAt_setNode (hslot : slot < t.nodes.size) (i : Nat) :
    (t.setNode slot n).occupantsAt i = if i = slot then n.occupants else t.occupantsAt i := by
  rw [occupantsAt, getElem?_setNode hslot]
  split_ifs <;> rfl

@[simp]
theorem size_setNode : (t.setNode slot n).nodes.size = t.nodes.size := Array.size_setIfInBounds

@[simp] theorem pool_setNode : (t.setNode slot n).pool = t.pool := rfl

@[simp] theorem locations_setNode : (t.setNode slot n).locations = t.locations := rfl

theorem lt_size_of_node (h : t.nodes[slot]? = some n) : slot < t.nodes.size :=
  (Array.getElem?_eq_some_iff.mp h).1

theorem frame_setNode_occupants (h : t.nodes[slot]? = some n) (occupants : Array Handle) (i : Nat) :
    (t.setNode slot { n with occupants }).frame i = t.frame i := by
  rw [frame_setNode (lt_size_of_node h)]
  split_ifs with heq
  · rw [heq, frame_of_node h]
    rfl
  · rfl

end SetNode

/-- Nothing but nodes in existing slots has changed. -/
structure OnlyNodes (t t' : Tree layout) : Prop where
  config_eq : t'.config = t.config
  pool_eq : t'.pool = t.pool
  locations_eq : t'.locations = t.locations
  span_eq : t'.span = t.span
  size_eq : t'.nodes.size = t.nodes.size

theorem onlyNodes_setNode (t : Tree layout) (slot : Nat) (n : Node) :
    t.OnlyNodes (t.setNode slot n) := ⟨rfl, rfl, rfl, rfl, size_setNode⟩

theorem OnlyNodes.trans {t'' : Tree layout} (h : t.OnlyNodes t') (h' : t'.OnlyNodes t'') :
    t.OnlyNodes t'' :=
  ⟨h'.config_eq.trans h.config_eq, h'.pool_eq.trans h.pool_eq,
    h'.locations_eq.trans h.locations_eq, h'.span_eq.trans h.span_eq, h'.size_eq.trans h.size_eq⟩

/-- A sequence of steps that each rewrite the node in a slot of their own. -/
theorem exists_foldlM_setNode {α : Type} (step : Tree layout → α → Except TreeFault (Tree layout))
    (slotOf : α → Nat) (put : α → Node → Node) (items : List α) (t : Tree layout)
    (hnodup : (items.map slotOf).Nodup) (hslot : ∀ a ∈ items, slotOf a < t.nodes.size)
    (hstep : ∀ u a n, a ∈ items → t.OnlyNodes u → t.nodes[slotOf a]? = some n →
      u.nodes[slotOf a]? = some n → step u a = .ok (u.setNode (slotOf a) (put a n))) :
    ∃ t', items.foldlM step t = .ok t' ∧ t.OnlyNodes t' ∧
      (∀ i, i ∉ items.map slotOf → t'.nodes[i]? = t.nodes[i]?) ∧
      ∀ a ∈ items, ∀ n, t.nodes[slotOf a]? = some n → t'.nodes[slotOf a]? = some (put a n) := by
  induction items generalizing t with
  | nil =>
      exact ⟨t, rfl, ⟨rfl, rfl, rfl, rfl, rfl⟩, fun _ _ => rfl, fun a ha => absurd ha (by simp)⟩
  | cons a items ih =>
      rw [List.map_cons, List.nodup_cons] at hnodup
      have hlt := hslot a List.mem_cons_self
      obtain ⟨n, hn⟩ : ∃ n, t.nodes[slotOf a]? = some n := ⟨_, Array.getElem?_eq_getElem hlt⟩
      have hfirst := hstep t a n List.mem_cons_self ⟨rfl, rfl, rfl, rfl, rfl⟩ hn hn
      have hother (b : α) (hb : b ∈ items) : slotOf b ≠ slotOf a := fun heq =>
        hnodup.1 (heq ▸ List.mem_map_of_mem hb)
      obtain ⟨t', hfold, honly, hrest, hput⟩ := ih (t.setNode (slotOf a) (put a n)) hnodup.2
        (fun b hb => by simpa using hslot b (List.mem_cons_of_mem a hb))
        (fun u b m hb hu hm hum => by
          rw [getElem?_setNode hlt, if_neg (hother b hb)] at hm
          exact hstep u b m (List.mem_cons_of_mem a hb) ((onlyNodes_setNode t _ _).trans hu) hm hum)
      refine ⟨t', ?_, (onlyNodes_setNode t _ _).trans honly, ?_, ?_⟩
      · rw [List.foldlM_cons, hfirst]
        exact hfold
      · intro i hi
        rw [List.map_cons, List.mem_cons, not_or] at hi
        rw [hrest i hi.2, getElem?_setNode hlt, if_neg hi.1]
      · intro b hb m hm
        rcases List.mem_cons.mp hb with rfl | hb
        · obtain rfl : n = m := Option.some.inj (hn.symm.trans hm)
          rw [hrest _ hnodup.1, getElem?_setNode hlt, if_pos rfl]
        · refine hput b hb m ?_
          rw [getElem?_setNode hlt, if_neg (hother b hb), hm]

def store (t : Tree layout) (slot : Nat) (n : Node) (e : Handle) (box : Box) : Tree layout :=
  { t.setNode slot { n with occupants := n.occupants.push e } with
    locations := t.locations.insert e ⟨slot, box⟩ }

def withdraw (t : Tree layout) (slot : Nat) (n : Node) (e : Handle) : Tree layout :=
  ({ t with locations := t.locations.erase e } : Tree layout).setNode slot
    { n with occupants := swapErase n.occupants e }

def rebox (t : Tree layout) (slot : Nat) (e : Handle) (box : Box) : Tree layout :=
  { t with locations := t.locations.insert e ⟨slot, box⟩ }

theorem getElem?_store {slot : Nat} {n : Node} (hn : t.nodes[slot]? = some n) (e : Handle)
    (box : Box) (i : Nat) : (t.store slot n e box).nodes[i]? =
      if i = slot then some { n with occupants := n.occupants.push e } else t.nodes[i]? :=
  getElem?_setNode (lt_size_of_node hn) i

theorem getElem?_withdraw {slot : Nat} {n : Node} (hn : t.nodes[slot]? = some n) (e : Handle)
    (i : Nat) : (t.withdraw slot n e).nodes[i]? =
      if i = slot then some { n with occupants := swapErase n.occupants e } else t.nodes[i]? :=
  getElem?_setNode (t := { t with locations := t.locations.erase e }) (lt_size_of_node hn) i

theorem boxOf_store (t : Tree layout) (slot : Nat) (n : Node) (e : Handle) (box : Box)
    (other : Handle) :
    (t.store slot n e box).boxOf other = if other = e then some box else t.boxOf other := by
  change ((t.locations.insert e ⟨slot, box⟩)[other]?).map Location.bounds = _
  rw [record_insert]
  split_ifs <;> rfl

theorem boxOf_rebox (t : Tree layout) (slot : Nat) (e : Handle) (box : Box) (other : Handle) :
    (t.rebox slot e box).boxOf other = if other = e then some box else t.boxOf other := by
  change ((t.locations.insert e ⟨slot, box⟩)[other]?).map Location.bounds = _
  rw [record_insert]
  split_ifs <;> rfl

theorem boxOf_withdraw (t : Tree layout) (slot : Nat) (n : Node) (e other : Handle) :
    (t.withdraw slot n e).boxOf other = if other = e then none else t.boxOf other := by
  change ((t.locations.erase e)[other]?).map Location.bounds = _
  rw [record_erase]
  split_ifs <;> rfl

namespace WellFormed

/-- Storing a new entity where it belongs keeps the invariant. -/
theorem store (h : t.WellFormed) {slot : Nat} {n : Node} {e : Handle} {box : Box}
    (hlive : t.Live slot) (hn : t.nodes[slot]? = some n) (hnew : t.locations[e]? = none)
    (hfits : Fits layout slot n.bare (layout.project box)) :
    (t.store slot n e box).WellFormed := by
  have hoccupants (i : Nat) : (t.store slot n e box).occupantsAt i =
      if i = slot then n.occupants.push e else t.occupantsAt i :=
    occupantsAt_setNode (lt_size_of_node hn) i
  have hframe (i : Nat) : (t.store slot n e box).frame i = t.frame i :=
    frame_setNode_occupants hn _ i
  have hrecord (other : Handle) : (t.store slot n e box).locations[other]? =
      if other = e then some ⟨slot, box⟩ else t.locations[other]? :=
    record_insert t.locations e other ⟨slot, box⟩
  have habsent (i : Nat) : e ∉ t.occupantsAt i := fun hmem => by
    obtain ⟨box', hrecord'⟩ := (h.placed.stored_iff e i).mp hmem
    cases hnew.symm.trans hrecord'
  refine ⟨h.arena.congr rfl rfl size_setNode hframe, ?_, ?_, ?_, ?_⟩
  · intro other i
    rw [hoccupants, hrecord]
    have hold := h.placed.stored_iff other i
    split_ifs with hi he he
    · subst hi he
      simp
    · subst hi
      rw [Array.mem_push, or_iff_left he, ← hold, occupantsAt_of_node hn]
    · subst he
      refine iff_of_false (habsent i) ?_
      rintro ⟨box', hsome⟩
      rw [Option.some.injEq, Location.mk.injEq] at hsome
      exact hi hsome.1.symm
    · exact hold
  · intro i
    rw [hoccupants]
    split_ifs with hi
    · rw [Array.toList_push, ← occupantsAt_of_node hn]
      refine List.nodup_append.mpr ⟨h.placed.nodup slot, List.nodup_singleton e, ?_⟩
      intro a ha b hb
      rintro rfl
      exact habsent slot (Array.mem_toList_iff.mp (List.mem_singleton.mp hb ▸ ha))
    · exact h.placed.nodup i
  · intro other i box' hother
    rw [hrecord] at hother
    split_ifs at hother with he
    · rw [Option.some.injEq, Location.mk.injEq] at hother
      exact hother.1 ▸ hlive
    · exact h.placed.live other i box' hother
  · intro other i box' f hother hf
    rw [hrecord] at hother
    rw [hframe] at hf
    split_ifs at hother with he
    · rw [Option.some.injEq, Location.mk.injEq] at hother
      obtain ⟨rfl, rfl⟩ := hother
      rw [frame_of_node hn, Option.some.injEq] at hf
      exact hf ▸ hfits
    · exact h.placed.fits other i box' f hother hf

/-- Replacing the box of an entity keeps the invariant if its node still fits. -/
theorem rebox (h : t.WellFormed) {slot : Nat} {f : Node} {e : Handle} {old box : Box}
    (hf : t.frame slot = some f) (hold : t.locations[e]? = some ⟨slot, old⟩)
    (hfits : Fits layout slot f (layout.project box)) : (t.rebox slot e box).WellFormed := by
  have hrecord (other : Handle) : (t.rebox slot e box).locations[other]? =
      if other = e then some ⟨slot, box⟩ else t.locations[other]? :=
    record_insert t.locations e other ⟨slot, box⟩
  refine ⟨h.arena.congr rfl rfl rfl fun _ => rfl, ?_, h.placed.nodup, ?_, ?_⟩
  · intro other i
    refine (h.placed.stored_iff other i).trans ?_
    rw [hrecord]
    split_ifs with he
    · subst he
      simp [hold]
    · rfl
  · intro other i box' hother
    rw [hrecord] at hother
    split_ifs at hother with he
    · rw [Option.some.injEq, Location.mk.injEq] at hother
      exact hother.1 ▸ h.placed.live e slot old hold
    · exact h.placed.live other i box' hother
  · intro other i box' g hother hg
    rw [hrecord] at hother
    split_ifs at hother with he
    · rw [Option.some.injEq, Location.mk.injEq] at hother
      obtain ⟨rfl, rfl⟩ := hother
      obtain rfl : f = g := Option.some.inj (hf.symm.trans hg)
      exact hfits
    · exact h.placed.fits other i box' g hother hg

theorem withdraw (h : t.WellFormed) {slot : Nat} {n : Node} {e : Handle} {box : Box}
    (hn : t.nodes[slot]? = some n) (hold : t.locations[e]? = some ⟨slot, box⟩) :
    (t.withdraw slot n e).WellFormed := by
  have hoccupants (i : Nat) : (t.withdraw slot n e).occupantsAt i =
      if i = slot then swapErase n.occupants e else t.occupantsAt i :=
    occupantsAt_setNode (t := { t with locations := t.locations.erase e }) (lt_size_of_node hn) i
  have hframe (i : Nat) : (t.withdraw slot n e).frame i = t.frame i :=
    frame_setNode_occupants (t := { t with locations := t.locations.erase e }) hn _ i
  have hrecord (other : Handle) : (t.withdraw slot n e).locations[other]? =
      if other = e then none else t.locations[other]? := record_erase t.locations e other
  have hspec := swapErase_spec (x := e) (occupantsAt_of_node hn ▸ h.placed.nodup slot)
  refine ⟨h.arena.congr rfl rfl size_setNode hframe, ?_, ?_, ?_, ?_⟩
  · intro other i
    rw [hoccupants, hrecord]
    have hstored := h.placed.stored_iff other i
    split_ifs with hi he he
    · subst he
      simp [hspec.2]
    · subst hi
      rw [hspec.2, and_iff_left he, ← hstored, occupantsAt_of_node hn]
    · subst he
      rw [hstored]
      refine iff_of_false ?_ (by simp)
      rintro ⟨box', hsome⟩
      rw [hold, Option.some.injEq, Location.mk.injEq] at hsome
      exact hi hsome.1.symm
    · exact hstored
  · intro i
    rw [hoccupants]
    split_ifs with hi
    · exact hspec.1
    · exact h.placed.nodup i
  · intro other i box' hother
    rw [hrecord] at hother
    split_ifs at hother with he
    exact h.placed.live other i box' hother
  · intro other i box' f hother hf
    rw [hrecord] at hother
    rw [hframe] at hf
    split_ifs at hother with he
    exact h.placed.fits other i box' f hother hf

end WellFormed

theorem wellFormed_empty {config : TreeConfig} (h : config.world.Acceptable) :
    (empty config : Tree layout).WellFormed := by
  have hnone (e : Handle) : (empty config : Tree layout).locations[e]? = none :=
    Std.ExtTreeMap.getElem?_empty
  have hoccupants (slot : Nat) : (empty config : Tree layout).occupantsAt slot = #[] := by
    cases slot <;> rfl
  refine ⟨arena_empty h, ?_, ?_, ?_, ?_⟩
  · intro e slot
    simp [hnone, hoccupants]
  · intro slot
    simp [hoccupants]
  · intro e slot box hrecord
    cases (hnone e).symm.trans hrecord
  · intro e slot box f hrecord _
    cases (hnone e).symm.trans hrecord

end Tree

end Broadphase
