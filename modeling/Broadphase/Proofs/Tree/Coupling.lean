import Mathlib
import Broadphase.Proofs.Tree.Simulation

/-!
Changes take the same steps in trees that are renamings of each other, because all decisions on
the way read renamed links only. Nothing is said of the blocks that the pools hand out. Where
these have to do with each other, a coupling says how, and the same steps keep it.
-/

namespace Broadphase

/-- A report with the numbers of its slot and its block renamed. -/
def TreeEvent.rename (layout : Layout) (ρ : Nat → Nat) : TreeEvent → TreeEvent
  | .subdivided slot depth block => .subdivided (layout.renameSlot ρ slot) depth (ρ block)
  | .merged slot depth block => .merged (layout.renameSlot ρ slot) depth (ρ block)
  | .cleared pooled => .cleared pooled

namespace Tree

variable {layout : Layout} {t u t' u' : Tree layout} {ρ : Nat → Nat} {slot block : Nat} {n : Node}

/-- What two trees have in common besides a renaming. It is kept when both pools hand out a block
or take corresponding ones back. -/
structure Coupling (layout : Layout) where
  /-- What the numbers of corresponding blocks have to do with the pools. -/
  pools : (Nat → Nat) → BlockPool → BlockPool → Prop
  /-- What one tree reports with what the other one reports. -/
  reports : TreeEvent → TreeEvent → Prop
  alloc : ∀ {ρ p q}, pools ρ p q →
    pools (Function.update ρ p.alloc.1 q.alloc.1) p.alloc.2 q.alloc.2
  free : ∀ {ρ p q p' q' block}, pools ρ p q → p.InUse block → p.free block = .ok p' →
    q.free (ρ block) = .ok q' → pools ρ p' q'
  report : ∀ {ρ p q} event, pools ρ p q → reports event (event.rename layout ρ)

/-- The second tree is the first one with the blocks in use renamed, and a coupling holds. -/
structure Coupled (c : Coupling layout) (ρ : Nat → Nat) (t u : Tree layout) : Prop where
  mirrors : Mirrors ρ t u
  pools : c.pools ρ t.pool u.pool

namespace Coupled

variable {c : Coupling layout} {slots : List Nat} {events events' : List TreeEvent}

/-- Dividing corresponding leaves adds a pair of blocks to the renaming. -/
theorem divide (h : Coupled c ρ t u) {block' : Nat} (hlive : t.Live slot)
    (hn : t.nodes[slot]? = some n) (hneeds : needsSplit t.config n = true)
    (hdivides : t.Divides slot n.bare block t') (hrehouses : t.Rehouses slot n block t')
    (hdivides' : u.Divides (layout.renameSlot ρ slot) (n.rename layout ρ).bare block' u')
    (hrehouses' : u.Rehouses (layout.renameSlot ρ slot) (n.rename layout ρ) block' u') :
    ∃ ρ', Coupled c ρ' t' u' ∧ (∀ i, t.Live i → layout.renameSlot ρ' i = layout.renameSlot ρ i) ∧
      ρ' block = block' := by
  have hsame (other : Nat) (huse : t.pool.InUse other) :
      Function.update ρ block block' other = ρ other := by
    apply Function.update_of_ne
    rintro rfl
    exact hdivides.takes.free_before huse
  have hext : Mirrors.Extends ρ (Function.update ρ block block') t u slot block block' n t' u' :=
    ⟨hlive, hn, hdivides, hrehouses, hdivides', hrehouses', hsame, Function.update_self _ _ _⟩
  obtain ⟨hleaf, hdepth⟩ := leaf_of_needsSplit hneeds
  have hpools := c.alloc h.pools
  rw [hdivides.alloc_eq, hdivides'.alloc_eq] at hpools
  refine ⟨_, ⟨h.mirrors.divide hext hleaf hdepth, hpools⟩, ?_, hext.new⟩
  intro i hi
  exact renameSlot_congr hsame hi

/-- The same divisions are made in both trees. -/
theorem divisions (h : Coupled c ρ t u) (hslots : ∀ i ∈ slots, t.Live i)
    (hdivisions : Divisions t slots events t')
    (hdivisions' : Divisions u (slots.map (layout.renameSlot ρ)) events' u') :
    ∃ ρ', Coupled c ρ' t' u' ∧ List.Forall₂ c.reports events events' := by
  induction hdivisions generalizing ρ u events' with
  | nil =>
      cases hdivisions'
      exact ⟨ρ, h, .nil⟩
  | @keep t _ slot n slots _ hlive hn hneeds _ ih =>
      have hm := h.mirrors.node_eq hlive hn
      rw [List.map_cons] at hdivisions'
      rw [List.forall_mem_cons] at hslots
      cases hdivisions' with
      | keep _ _ _ hrest => exact ih h hslots.2 hrest
      | divide _ hm' hneeds' =>
          obtain rfl := Option.some.inj (hm.symm.trans hm')
          rw [h.mirrors.needsSplit_eq, hneeds] at hneeds'
          cases hneeds'
  | @divide t divided _ slot block n slots _ hlive hn hneeds hdivides hrehouses _ ih =>
      have hm := h.mirrors.node_eq hlive hn
      rw [List.map_cons] at hdivisions'
      rw [List.forall_mem_cons] at hslots
      cases hdivisions' with
      | keep _ hm' hneeds' _ =>
          obtain rfl := Option.some.inj (hm.symm.trans hm')
          rw [h.mirrors.needsSplit_eq, hneeds] at hneeds'
          cases hneeds'
      | divide _ hm' _ hdivides' hrehouses' hrest =>
          obtain rfl := Option.some.inj (hm.symm.trans hm')
          obtain ⟨ρ', hcoupled, hsame, rfl⟩ :=
            h.divide hlive hn hneeds hdivides hrehouses hdivides' hrehouses'
          have hnext : ∀ i ∈ layout.blockSlots block ++ slots, divided.Live i := by
            intro i hi
            rw [hdivides.live_iff]
            exact (List.mem_append.mp hi).symm.imp_left (hslots.2 i)
          have hmap : (layout.blockSlots block ++ slots).map (layout.renameSlot ρ') =
              layout.blockSlots (ρ' block) ++ slots.map (layout.renameSlot ρ) := by
            rw [List.map_append, ← Layout.blockSlots_rename]
            exact congrArg _ (List.map_congr_left fun i hi => hsame i (hslots.2 i hi))
          rw [← hmap] at hrest
          obtain ⟨ρ'', hresult, hreports⟩ := ih hcoupled hnext hrest
          have hreport := c.report (.subdivided slot n.depth block) hcoupled.pools
          rw [TreeEvent.rename, hsame slot hlive] at hreport
          exact ⟨ρ'', hresult, hreports.cons hreport⟩

/-- The same nodes merge in both trees. -/
theorem mergers (h : Coupled c ρ t u) {start : Option Nat} (hmergers : Mergers t start events t')
    (hmergers' : Mergers u (start.map (layout.renameSlot ρ)) events' u') :
    Coupled c ρ t' u' ∧ List.Forall₂ c.reports events events' := by
  induction hmergers generalizing u events' with
  | root =>
      cases hmergers'
      exact ⟨h, .nil⟩
  | @stop t slot n hlive hn hcannot =>
      rw [Option.map_some] at hmergers'
      cases hmergers' with
      | stop => exact ⟨h, .nil⟩
      | merge hmerge' =>
          obtain rfl := Option.some.inj ((h.mirrors.node_eq hlive hn).symm.trans hmerge'.node_eq)
          obtain ⟨block, hmerge⟩ := h.mirrors.exists_mergeable hlive hn hmerge'
          exact absurd hmerge (hcannot block)
  | @merge t _ _ slot block n _ hmerge hmerges _ ih =>
      have hmerge' := h.mirrors.mergeable hmerge
      rw [Option.map_some] at hmergers'
      cases hmergers' with
      | stop _ hm hcannot =>
          obtain rfl := Option.some.inj (hm.symm.trans hmerge'.node_eq)
          exact absurd hmerge' (hcannot _)
      | merge hother hmerges' hrest =>
          obtain rfl := Option.some.inj (hmerge'.node_eq.symm.trans hother.node_eq)
          obtain rfl := Option.some.inj (hmerge'.children_eq.symm.trans hother.children_eq)
          have huse := hmerge.inUse h.mirrors.left.arena
          have hmerged := h.mirrors.merge hmerge hmerges hmerge' hmerges'
          have hpools := c.free h.pools huse hmerges.free_eq hmerges'.free_eq
          obtain ⟨hresult, hreports⟩ := ih ⟨hmerged, hpools⟩ hrest
          exact ⟨hresult, hreports.cons (c.report (.merged slot n.depth block) h.pools)⟩

theorem inserts (h : Coupled c ρ t u) {e : Handle} {box : Box}
    (hinserts : t.Inserts e box events t') (hinserts' : u.Inserts e box events' u') :
    ∃ ρ', Coupled c ρ' t' u' ∧ List.Forall₂ c.reports events events' := by
  obtain @⟨slot, n, hnew, htarget, -, hlive, hn, hfits, hdivisions⟩ := hinserts
  obtain @⟨slot', n', -, htarget', -, -, hn', -, hdivisions'⟩ := hinserts'
  have hsame := h.mirrors.target_eq (layout.project box)
  rw [htarget, htarget'] at hsame
  obtain rfl : slot' = layout.renameSlot ρ slot := Except.ok.inj hsame
  obtain rfl := Option.some.inj ((h.mirrors.node_eq hlive hn).symm.trans hn')
  have hstore : Coupled c ρ (t.store slot n e box)
      (u.store (layout.renameSlot ρ slot) (n.rename layout ρ) e box) :=
    ⟨h.mirrors.store hlive hn hnew hfits, h.pools⟩
  exact hstore.divisions (List.forall_mem_singleton.mpr hlive) hdivisions hdivisions'

theorem removes (h : Coupled c ρ t u) {e : Handle} (hremoves : t.Removes e events t')
    (hremoves' : u.Removes e events' u') :
    Coupled c ρ t' u' ∧ List.Forall₂ c.reports events events' := by
  cases hremoves with
  | untracked hrecord =>
      have hnone : u.locations[e]? = none := by
        rw [h.mirrors.record_eq, hrecord, Option.map_none]
      cases hremoves' with
      | untracked => exact ⟨h, .nil⟩
      | stored hrecord' => cases hnone.symm.trans hrecord'
  | @stored slot box n _ _ hrecord hn hmergers =>
      have hrecord' := h.mirrors.record_of hrecord
      cases hremoves' with
      | untracked hnone => cases hnone.symm.trans hrecord'
      | stored hother hn' hmergers' =>
          obtain ⟨rfl, rfl⟩ := Location.mk.inj (Option.some.inj (hrecord'.symm.trans hother))
          have hlive := h.mirrors.left.placed.live e slot box hrecord
          obtain rfl := Option.some.inj ((h.mirrors.node_eq hlive hn).symm.trans hn')
          have hwithdraw : Coupled c ρ (t.withdraw slot n e)
              (u.withdraw (layout.renameSlot ρ slot) (n.rename layout ρ) e) :=
            ⟨h.mirrors.withdraw hn hrecord, h.pools⟩
          have hstart : (if (n.rename layout ρ).isLeaf then (n.rename layout ρ).parent
              else some (layout.renameSlot ρ slot)) =
                (if n.isLeaf then n.parent else some slot).map (layout.renameSlot ρ) := by
            rw [Node.rename_isLeaf, Node.rename_parent]
            split_ifs <;> rfl
          rw [hstart] at hmergers'
          exact hwithdraw.mergers hmergers hmergers'

theorem widened (h : Coupled c ρ t u) (box : Box) : Coupled c ρ (t.widened box) (u.widened box) := by
  have hspan := h.mirrors.withSpan (some (widen t.span box))
  constructor
  · rw [Tree.widened, Tree.widened, h.mirrors.span_eq]
    exact hspan
  · exact h.pools

/-- An update takes the same way in both trees. -/
theorem updates (h : Coupled c ρ t u) {e : Handle} {box : Box}
    (hupdates : t.Updates e box events t') (hupdates' : u.Updates e box events' u') :
    ∃ ρ', Coupled c ρ' t' u' ∧ List.Forall₂ c.reports events events' := by
  have hwide := h.widened box
  cases hupdates with
  | insert hinserts =>
      have hnone : u.locations[e]? = none := by
        rw [h.mirrors.record_eq]
        exact congrArg _ hinserts.untracked
      cases hupdates' with
      | insert hinserts' => exact hwide.inserts hinserts hinserts'
      | stay hrecord' => cases hnone.symm.trans hrecord'
      | move hrecord' => cases hnone.symm.trans hrecord'
  | @stay slot old n hrecord hn hfits =>
      have hrecord' := h.mirrors.record_of hrecord
      have hlive := h.mirrors.left.placed.live e slot old hrecord
      have hn' := h.mirrors.node_eq hlive hn
      cases hupdates' with
      | insert hinserts' => cases hrecord'.symm.trans hinserts'.untracked
      | stay hother =>
          obtain ⟨rfl, rfl⟩ := Location.mk.inj (Option.some.inj (hrecord'.symm.trans hother))
          exact ⟨ρ, ⟨hwide.mirrors.rebox (frame_of_node hn) hrecord hfits, h.pools⟩, .nil⟩
      | move hother hm hnot =>
          obtain ⟨rfl, rfl⟩ := Location.mk.inj (Option.some.inj (hrecord'.symm.trans hother))
          obtain rfl := Option.some.inj (hn'.symm.trans hm)
          exact absurd ((h.mirrors.fits_iff hlive n.bare _).mpr hfits) hnot
  | @move slot old n _ _ _ _ hrecord hn hnot hremoves hinserts =>
      have hrecord' := h.mirrors.record_of hrecord
      have hlive := h.mirrors.left.placed.live e slot old hrecord
      have hn' := h.mirrors.node_eq hlive hn
      cases hupdates' with
      | insert hinserts' => cases hrecord'.symm.trans hinserts'.untracked
      | stay hother hm hfits =>
          obtain ⟨rfl, rfl⟩ := Location.mk.inj (Option.some.inj (hrecord'.symm.trans hother))
          obtain rfl := Option.some.inj (hn'.symm.trans hm)
          exact absurd ((h.mirrors.fits_iff hlive n.bare _).mp hfits) hnot
      | move _ _ _ hremoves' hinserts' =>
          obtain ⟨hremoved, hmerged⟩ := hwide.removes hremoves hremoves'
          obtain ⟨ρ', hresult, hsplit⟩ := hremoved.inserts hinserts hinserts'
          exact ⟨ρ', hresult, List.rel_append hmerged hsplit⟩

/-- A change of one entity does the same to both trees. -/
theorem transition (h : Coupled c ρ t u) {change : Change} (hkeeps : change ≠ .clear)
    (htransition : t.Transition change events t')
    (htransition' : u.Transition change events' u') :
    ∃ ρ', Coupled c ρ' t' u' ∧ List.Forall₂ c.reports events events' := by
  cases htransition with
  | update hupdates =>
      cases htransition' with
      | update hupdates' => exact h.updates hupdates hupdates'
  | remove hremoves =>
      cases htransition' with
      | remove hremoves' => exact ⟨ρ, h.removes hremoves hremoves'⟩
  | clear => exact absurd rfl hkeeps

end Coupled

end Tree

end Broadphase
