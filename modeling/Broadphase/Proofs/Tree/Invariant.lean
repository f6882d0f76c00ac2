import Mathlib
import Broadphase.Tree.Index
import Broadphase.Proofs.History
import Broadphase.Proofs.Tree.Insertion
import Broadphase.Proofs.Tree.Merging

/-!
The invariant of a tree holds in every state that changes lead to. No change fails
on a well-formed tree, each keeps it well-formed, and the boxes of the tracked
entities are those of the history.
-/

namespace Broadphase

open Scalar in
/-- An accepted world is finite and not inverted. -/
theorem acceptable_of_validate {config : TreeConfig} (h : config.validate = .ok ()) :
    config.world.Acceptable := by
  have hworld : config.world.validateWorld = .ok () := by
    cases hcase : config.world.validateWorld with
    | ok u => rfl
    | error e =>
        unfold TreeConfig.validate at h
        rw [hcase] at h
        cases h
  have hflaw : config.world.worldFlaw? = none := by
    unfold Box.validateWorld at hworld
    split at hworld
    · cases hworld
    · assumption
  unfold Box.worldFlaw? at hflaw
  cases hfinite : config.world.isFinite with
  | false => simp [hfinite] at hflaw
  | true =>
      simp only [hfinite, Bool.not_true, Bool.false_eq_true, if_false, List.findSome?_eq_none_iff,
        ite_eq_right_iff, reduceCtorEq, imp_false] at hflaw
      simp only [Box.isFinite, Vec3.isFinite, Bool.and_eq_true] at hfinite
      have hmin (axis : Vec3.Axis) : (config.world.min.along axis).isFinite = true := by
        cases axis <;> simp only [Vec3.along] <;> tauto
      have hmax (axis : Vec3.Axis) : (config.world.max.along axis).isFinite = true := by
        cases axis <;> simp only [Vec3.along] <;> tauto
      refine ⟨hmin, hmax, ?_⟩
      intro axis
      obtain ⟨a, ha⟩ := isReal_of_isFinite (hmin axis)
      obtain ⟨b, hb⟩ := isReal_of_isFinite (hmax axis)
      by_contra hnot
      exact hflaw axis (by cases axis <;> simp) ((Scalar.not_le ha.isNumber hb.isNumber).mp hnot)

namespace Tree

variable {layout : Layout} {t t' : Tree layout}

theorem eq_empty_of_create {config : TreeConfig} (h : (create layout config).1 = .ok t) :
    t = empty config ∧ config.world.Acceptable := by
  unfold create at h
  split at h
  · rename_i u hvalid
    cases h
    exact ⟨rfl, acceptable_of_validate hvalid⟩
  · cases h

theorem create_eq_ok {config : TreeConfig} (h : config.validate.isOk = true) :
    (create layout config).1 = .ok (empty config) := by
  unfold create
  cases hvalid : config.validate with
  | ok u => rfl
  | error e => simp [hvalid, Except.isOk, Except.toBool] at h

/-- The range of heights does not matter for the invariant. -/
theorem WellFormed.withSpan (h : t.WellFormed) (span : Option Layout.HeightSpan) :
    ({ t with span } : Tree layout).WellFormed :=
  ⟨h.arena.congr rfl rfl rfl fun _ => rfl,
    ⟨h.placed.stored_iff, h.placed.nodup, h.placed.live, h.placed.fits⟩⟩

/-- The entity is where an insertion would look for it. -/
def Settled (t : Tree layout) (e : Handle) : Prop :=
  ∀ slot box, t.locations[e]? = some ⟨slot, box⟩ → t.Descends (layout.project box) slot

/-- The node of an entity may keep it with a new box. -/
def Keeps (t : Tree layout) (e : Handle) (box : Box) : Prop :=
  ∃ slot old f, t.locations[e]? = some ⟨slot, old⟩ ∧ t.frame slot = some f ∧
    Fits layout slot f (layout.project box)

/-- What one change reports: merges on the way up from a node and then divisions of nodes
above the greatest depth, or that the tree was emptied. -/
inductive Reports (t : Tree layout) : List TreeEvent → Prop where
  | moved {start : Option Nat} {merges splits : List TreeEvent} : t.Ascends start merges →
      Shallow t.config.maxDepth splits → Reports t (merges ++ splits)
  | cleared (pooled : Nat) : Reports t [.cleared pooled]

theorem Reports.of_splits {splits : List TreeEvent} (h : Shallow t.config.maxDepth splits) :
    t.Reports splits := by
  have hreports : t.Reports ([] ++ splits) := .moved (.stop none) h
  exact hreports

theorem Reports.of_merges {start : Option Nat} {merges : List TreeEvent}
    (h : t.Ascends start merges) : t.Reports merges := by
  have hreports : t.Reports (merges ++ []) := .moved h (.nil _)
  rwa [List.append_nil] at hreports

/-- The tree with the range of heights that an update leaves behind. -/
def widened (t : Tree layout) (box : Box) : Tree layout :=
  { t with span := some (widen t.span box) }

/-- What an update does. A new entity is put in. One whose node may keep it only has its box
replaced, and any other is taken out and put in again. -/
inductive Updates (t : Tree layout) (e : Handle) (box : Box) : List TreeEvent → Tree layout → Prop
    where
  | insert {events : List TreeEvent} {t' : Tree layout} :
      (t.widened box).Inserts e box events t' → Updates t e box events t'
  | stay {slot : Nat} {old : Box} {n : Node} : t.locations[e]? = some ⟨slot, old⟩ →
      t.nodes[slot]? = some n → Fits layout slot n.bare (layout.project box) →
      Updates t e box [] ((t.widened box).rebox slot e box)
  | move {slot : Nat} {old : Box} {n : Node} {merges splits : List TreeEvent}
      {removed t' : Tree layout} : t.locations[e]? = some ⟨slot, old⟩ →
      t.nodes[slot]? = some n → ¬ Fits layout slot n.bare (layout.project box) →
      (t.widened box).Removes e merges removed → removed.Inserts e box splits t' →
      Updates t e box (merges ++ splits) t'

/-- An update does not fail. -/
theorem exists_updates (h : t.WellFormed) (e : Handle) (box : Box) :
    ∃ t' events, t.tryUpdate e box = .ok (t', events) ∧ t.Updates e box events t' := by
  have hspan : (t.widened box).WellFormed := h.withSpan _
  unfold tryUpdate
  cases hrecord : t.locations[e]? with
  | none =>
      obtain ⟨t', events, heq, hinserts⟩ := exists_inserts hspan hrecord box
      refine ⟨t', events, ?_, .insert hinserts⟩
      simp only [hrecord]
      exact heq
  | some location =>
      obtain ⟨slot, old⟩ := location
      obtain ⟨n, hn⟩ := h.arena.exists_node (h.placed.live e slot old hrecord)
      obtain ⟨stays, hstays, hfits⟩ := exists_staysIn
        (t := { t with span := some (widen t.span box) }) hn (layout.project box)
      cases stays with
      | true =>
          refine ⟨(t.widened box).rebox slot e box, [], ?_, .stay hrecord hn (hfits.mp rfl)⟩
          simp only [hrecord, hstays, bind, Except.bind, pure, Except.pure, if_true]
          rfl
      | false =>
          obtain ⟨removed, merges, hremove, hremoves⟩ := exists_removes hspan e
          obtain ⟨hwell, htracks, -⟩ := hremoves.spec hspan
          have hnew : removed.locations[e]? = none := by
            rw [← boxOf_eq_none, htracks.box_eq, if_pos rfl]
          obtain ⟨t', splits, hinsert, hinserts⟩ := exists_inserts hwell hnew box
          refine ⟨t', merges ++ splits, ?_, .move hrecord hn
            (fun hfit => Bool.false_ne_true (hfits.mpr hfit)) hremoves hinserts⟩
          rw [widened] at hremove
          simp only [hrecord, hstays, hremove, hinsert, bind, Except.bind, pure, Except.pure,
            Bool.false_eq_true, if_false]

/-- An update keeps the invariant. It widens the range of heights whatever becomes of the
entity. An entity that does not stay in its node is where an insertion puts it. -/
theorem Updates.spec {e : Handle} {box : Box} {events : List TreeEvent}
    (h : t.Updates e box events t') (hwell : t.WellFormed) :
    t'.WellFormed ∧ t.Tracks e (some box) t' ∧ t'.span = some (widen t.span box) ∧
      (¬ t.Keeps e box → t'.Settled e) ∧ t.Reports events ∧ Ledger t.pool events t'.pool := by
  have hspan : (t.widened box).WellFormed := hwell.withSpan _
  have hsettled {t' : Tree layout} {slot : Nat} (hslot : t'.locations[e]? = some ⟨slot, box⟩)
      (hdescends : t'.Descends (layout.project box) slot) : t'.Settled e := by
    intro slot' box' hslot'
    rw [hslot, Option.some.injEq, Location.mk.injEq] at hslot'
    obtain ⟨rfl, rfl⟩ := hslot'
    exact hdescends
  cases h with
  | insert hinserts =>
      obtain ⟨hwell', htracks, hsame, hshallow, hledger, slot, hslot, hdescends⟩ :=
        hinserts.spec hspan
      exact ⟨hwell', ⟨htracks.config_eq, htracks.box_eq⟩, hsame,
        fun _ => hsettled hslot hdescends, .of_splits hshallow, hledger⟩
  | @stay slot old n hrecord hn hfits =>
      refine ⟨hspan.rebox (frame_of_node hn) hrecord hfits, ⟨rfl, boxOf_rebox _ slot e box⟩, rfl,
        ?_, .of_splits (.nil _), .nil t.pool⟩
      intro hkeeps
      exact absurd ⟨slot, old, n.bare, hrecord, frame_of_node hn, hfits⟩ hkeeps
  | @move _ _ _ merges splits removed _ _ _ _ hremoves hinserts =>
      obtain ⟨hwell', htracks, hsame, ⟨start, hascends⟩, hledger⟩ := hremoves.spec hspan
      obtain ⟨hwell'', htracks', hsame', hshallow, hledger', slot, hslot, hdescends⟩ :=
        hinserts.spec hwell'
      rw [htracks.config_eq] at hshallow
      have hlives (i : Nat) (hi : (t.widened box).Live i) : t.Live i := hi
      have hup : t.Ascends start merges := hascends.congr hlives fun _ => rfl
      refine ⟨hwell'', ⟨htracks'.config_eq.trans htracks.config_eq, ?_⟩, hsame'.trans hsame,
        fun _ => hsettled hslot hdescends, .moved hup hshallow, hledger.append hledger'⟩
      intro other
      rw [htracks'.box_eq, htracks.box_eq]
      split_ifs <;> rfl

theorem exists_tryUpdate (h : t.WellFormed) (e : Handle) (box : Box) :
    ∃ t' events, t.tryUpdate e box = .ok (t', events) ∧ t'.WellFormed ∧
      t.Tracks e (some box) t' ∧ (¬ t.Keeps e box → t'.Settled e) := by
  obtain ⟨t', events, heq, hupdates⟩ := exists_updates h e box
  obtain ⟨hwell, htracks, -, hsettled, -⟩ := hupdates.spec h
  exact ⟨t', events, heq, hwell, htracks, hsettled⟩

def vacated (n : Node) : Node := { n with children := none, occupants := #[] }

private theorem clear_pool (h : t.Arena) :
    t.clear.pool.Sound ∧ t.clear.pool.pooling = t.config.pooling ∧
      t.clear.nodes.size = layout.firstSlot t.clear.pool.highWater ∧
      ∀ block, ¬ t.clear.pool.InUse block := by
  have hsize := h.size_eq
  have hpooling := h.pooling_eq
  unfold clear
  cases hcase : t.config.pooling with
  | true =>
      obtain ⟨hsound, htop, hfree⟩ := BlockPool.sound_releaseAll t.pool
      refine ⟨hsound, hpooling.trans hcase, ?_, hfree⟩
      simp only [if_true, Array.size_map]
      rw [hsize, htop]
  | false =>
      refine ⟨BlockPool.sound_empty _, hpooling.trans hcase, ?_,
        fun block huse => Nat.not_lt_zero block huse.1⟩
      have hpos := h.lt_size (live_root t)
      simp only [Bool.false_eq_true, if_false, Array.size_map, Array.take_eq_extract,
        Array.size_extract]
      unfold rootSlot at hpos
      change min 1 t.nodes.size - 0 = 1 + 0 * layout.arity
      omega

private theorem clear_node (t : Tree layout) (i : Nat) :
    (∃ n, t.nodes[i]? = some n ∧ t.clear.nodes[i]? = some (vacated n)) ∨
      (t.clear.nodes[i]? = none ∧ (i = rootSlot → t.nodes[i]? = none)) := by
  unfold clear
  cases hcase : t.config.pooling with
  | true =>
      simp only [if_true, Array.getElem?_map]
      cases hn : t.nodes[i]? with
      | none => exact Or.inr ⟨rfl, fun _ => rfl⟩
      | some n => exact Or.inl ⟨n, rfl, rfl⟩
  | false =>
      simp only [Bool.false_eq_true, if_false, Array.getElem?_map, Array.take_eq_extract,
        Array.getElem?_extract, Nat.zero_add]
      split_ifs with hi
      · cases hn : t.nodes[i]? with
        | none => exact Or.inr ⟨rfl, fun _ => rfl⟩
        | some n => exact Or.inl ⟨n, rfl, rfl⟩
      · refine Or.inr ⟨rfl, fun hroot => Array.getElem?_eq_none ?_⟩
        unfold rootSlot at hroot
        omega

theorem not_inUse_clear (h : t.Arena) (block : Nat) : ¬ t.clear.pool.InUse block :=
  (clear_pool h).2.2.2 block

private theorem live_clear (h : t.Arena) {i : Nat} (hlive : t.clear.Live i) : i = rootSlot :=
  hlive.resolve_right fun ⟨block, _, huse, _⟩ => not_inUse_clear h block huse

private theorem arena_clear (h : t.Arena) : t.clear.Arena := by
  obtain ⟨hsound, hpooling, hsize, hfree⟩ := clear_pool h
  obtain ⟨f, hf, hbounds, hdepth, hparent⟩ := h.root
  obtain ⟨n, hn, rfl⟩ := exists_node_of_frame hf
  have hroot : t.clear.frame rootSlot = some (vacated n) := by
    rcases clear_node t rootSlot with ⟨m, hm, hclear⟩ | ⟨-, hnone⟩
    · obtain rfl : n = m := Option.some.inj (hn.symm.trans hm)
      exact frame_of_node hclear
    · cases (hnone rfl).symm.trans hn
  -- only the root is in use
  have honly {i : Nat} {g : Node} (hlive : t.clear.Live i) (hg : t.clear.frame i = some g) :
      g = vacated n := by
    rw [live_clear h hlive, hroot] at hg
    exact (Option.some.inj hg).symm
  refine ⟨h.acceptable, hsound, hpooling, hsize, ⟨_, hroot, hbounds, hdepth, hparent⟩, ?_, ?_, ?_,
    fun block huse => absurd huse (hfree block)⟩
  · intro i g hlive hg
    rw [honly hlive hg]
    exact h.depth_le rootSlot n.bare (live_root t) hf
  · intro i g hlive hg
    rw [honly hlive hg]
    exact h.tame rootSlot n.bare (live_root t) hf
  · intro i g block hlive hg hblock
    rw [honly hlive hg] at hblock
    cases hblock

private theorem placed_clear (t : Tree layout) : t.clear.Placed := by
  have hrecord (e : Handle) : t.clear.locations[e]? = none := Std.ExtTreeMap.getElem?_empty
  have hoccupants (i : Nat) : t.clear.occupantsAt i = #[] := by
    rcases clear_node t i with ⟨m, -, hclear⟩ | ⟨hnone, -⟩
    · exact occupantsAt_of_node hclear
    · rw [occupantsAt, hnone, Option.elim_none]
  refine ⟨?_, ?_, ?_, ?_⟩
  · intro e i
    simp [hoccupants, hrecord]
  · intro i
    simp [hoccupants]
  · intro e i box hstored
    cases (hrecord e).symm.trans hstored
  · intro e i box g hstored
    cases (hrecord e).symm.trans hstored

/-- Clearing keeps the invariant and forgets everything. -/
theorem wellFormed_clear (h : t.WellFormed) :
    t.clear.WellFormed ∧ t.clear.config = t.config ∧ ∀ e, t.clear.boxOf e = none := by
  refine ⟨⟨arena_clear h.arena, placed_clear t⟩, rfl, ?_⟩
  intro e
  exact boxOf_eq_none.mpr Std.ExtTreeMap.getElem?_empty

/-- The range of heights after a change. -/
def heightsAfter (span : Option Layout.HeightSpan) : Change → Option Layout.HeightSpan
  | .update _ position bounds => some (widen span (extent position bounds))
  | .remove _ => span
  | .clear => none

/-- What a change does. -/
inductive Transition (t : Tree layout) : Change → List TreeEvent → Tree layout → Prop where
  | update {e : Handle} {position : Vec3} {bounds : Option Box} {events : List TreeEvent}
      {t' : Tree layout} : t.Updates e (extent position bounds) events t' →
      Transition t (.update e position bounds) events t'
  | remove {e : Handle} {events : List TreeEvent} {t' : Tree layout} : t.Removes e events t' →
      Transition t (.remove e) events t'
  | clear : Transition t .clear [.cleared t.clear.pool.pooled] t.clear

/-- No change fails on a well-formed tree. -/
theorem exists_transition (h : t.WellFormed) (change : Change) :
    ∃ t' events, t.step change = .ok (t', events) ∧ t.Transition change events t' := by
  cases change with
  | update e position bounds =>
      obtain ⟨t', events, heq, hupdates⟩ := exists_updates h e (extent position bounds)
      exact ⟨t', events, heq, .update hupdates⟩
  | remove e =>
      obtain ⟨t', events, heq, hremoves⟩ := exists_removes h e
      exact ⟨t', events, heq, .remove hremoves⟩
  | clear => exact ⟨t.clear, _, rfl, .clear⟩

/-- Each change keeps a tree well-formed. -/
theorem Transition.spec {change : Change} {events : List TreeEvent}
    (h : t.Transition change events t') (hwell : t.WellFormed) :
    t'.WellFormed ∧ t'.config = t.config ∧ (∀ e, t'.boxOf e = change.track t.boxOf e) ∧
      t'.span = heightsAfter t.span change ∧ t.Reports events ∧ Ledger t.pool events t'.pool := by
  cases h with
  | update hupdates =>
      obtain ⟨hwell', htracks, hspan, -, hreports⟩ := hupdates.spec hwell
      exact ⟨hwell', htracks.config_eq, htracks.box_eq, hspan, hreports⟩
  | remove hremoves =>
      obtain ⟨hwell', htracks, hspan, ⟨start, hascends⟩, hledger⟩ := hremoves.spec hwell
      exact ⟨hwell', htracks.config_eq, htracks.box_eq, hspan, .of_merges hascends, hledger⟩
  | clear =>
      obtain ⟨hwell', hconfig, hnone⟩ := wellFormed_clear hwell
      refine ⟨hwell', hconfig, hnone, rfl, .cleared _, .cleared ?_ (.nil _)⟩
      rw [hwell.arena.pooling_eq]
      rfl

/-- No change fails on a well-formed tree, and each keeps it well-formed. -/
theorem exists_step (h : t.WellFormed) (change : Change) :
    ∃ t' events, t.step change = .ok (t', events) ∧ t'.WellFormed ∧ t'.config = t.config ∧
      (∀ e, t'.boxOf e = change.track t.boxOf e) ∧ t'.span = heightsAfter t.span change ∧
      t.Reports events ∧ Ledger t.pool events t'.pool := by
  obtain ⟨t', events, heq, htransition⟩ := exists_transition h change
  exact ⟨t', events, heq, htransition.spec h⟩

theorem apply_eq_of_step {change : Change} {events : List TreeEvent}
    (h : t.step change = .ok (t', events)) :
    SpatialIndex.apply t change = (t', events.map (·.report layout.source)) := by
  change Tree.apply t change = _
  rw [Tree.apply, h]

theorem apply_of_step {change : Change} {events : List TreeEvent}
    (h : t.step change = .ok (t', events)) : (SpatialIndex.apply t change).1 = t' := by
  rw [apply_eq_of_step h]

/-- What holds after any changes to a well-formed tree. -/
theorem wellFormed_run (h : t.WellFormed) (changes : List Change) :
    (SpatialIndex.run t changes).WellFormed ∧ (SpatialIndex.run t changes).config = t.config ∧
      (SpatialIndex.run t changes).boxOf = changes.foldl Change.track t.boxOf := by
  induction changes generalizing t with
  | nil => exact ⟨h, rfl, rfl⟩
  | cons change changes ih =>
      obtain ⟨t', events, hstep, hwell, hconfig, hbox, -⟩ := exists_step h change
      obtain ⟨hwell', hconfig', hbox'⟩ := ih hwell
      rw [SpatialIndex.run_cons, apply_of_step hstep]
      refine ⟨hwell', hconfig'.trans hconfig, ?_⟩
      rw [hbox', List.foldl_cons, funext hbox]

theorem wellFormed_of_create {config : TreeConfig} (h : (create layout config).1 = .ok t)
    (changes : List Change) :
    (SpatialIndex.run t changes).WellFormed ∧ (SpatialIndex.run t changes).config = config ∧
      (SpatialIndex.run t changes).boxOf = trackedBoxes changes := by
  obtain ⟨rfl, hworld⟩ := eq_empty_of_create h
  obtain ⟨hwell, hconfig, hbox⟩ := wellFormed_run (wellFormed_empty hworld) changes
  refine ⟨hwell, hconfig, hbox.trans (congrArg (fun boxes => changes.foldl _ boxes) ?_)⟩
  funext e
  exact boxOf_eq_none.mpr Std.ExtTreeMap.getElem?_empty

end Tree

end Broadphase
