import Mathlib
import Broadphase.Proofs.Tracking

/-!
Updates made twice. An update whose effect is there already changes nothing: a grid finds the
recorded block equal to the new one, a scan writes the entry over itself, and a tree finds the
entity in a node that may keep it. In a tree that is not how the first update went: it may have
put the entity into a leaf and divided this leaf several times. But wherever the entity ended
up, the invariant says that its box belongs there, and that is what the second update asks.
-/

namespace Broadphase

open SpatialIndex

namespace Scalar

theorem lesser_self (a : Float32) : lesser a a = a := ite_self a

theorem greater_self (a : Float32) : greater a a = a := ite_self a

theorem lesser_lesser (a b : Float32) : lesser (lesser a b) b = lesser a b := by
  cases h : a.isNaN || decide (b ≤ a) with
  | true => simp only [lesser, h, if_true, ite_self]
  | false => simp only [lesser, h, Bool.false_eq_true, if_false]

theorem greater_greater (a b : Float32) : greater (greater a b) b = greater a b := by
  cases h : a.isNaN || decide (a ≤ b) with
  | true => simp only [greater, h, if_true, ite_self]
  | false => simp only [greater, h, Bool.false_eq_true, if_false]

end Scalar

/-- A change that is made again at once does nothing and reports nothing. -/
def Absorbs {ι : Type} [SpatialIndex ι] (index : ι) (change : Change) : Prop :=
  apply (apply index change).1 change = ((apply index change).1, [])

/-- An index inside of another one absorbs what that one does. -/
theorem Absorbs.map {ι κ : Type} [SpatialIndex ι] [SpatialIndex κ] {f : ι → κ} {index : ι}
    {change : Change} (h : Absorbs index change)
    (happly : ∀ index change,
      apply (f index) change = (f (apply index change).1, (apply index change).2)) :
    Absorbs (f index) change := by
  unfold Absorbs at h ⊢
  rw [happly, happly, h]

namespace Grid

variable {g : Grid} {e : Handle} {b : Box}

/-- An entity that occupies the cells of the box already is left there. -/
theorem update_eq_self (h : g.ranges[e]? = some (g.cellRange b)) : g.update e b = (g, []) := by
  rw [update, h]
  exact if_pos rfl

theorem absorbs_update (h : g.Filed) (e : Handle) (position : Vec3) (bounds : Option Box) :
    Absorbs g (.update e position bounds) := by
  have hfiles := files_update h e (extent position bounds)
  have hrange := hfiles.range_eq e
  rw [if_pos rfl, ← cellRange_congr (congrArg GridConfig.cellSize hfiles.config_eq)] at hrange
  have hsame := update_eq_self hrange
  exact congrArg (fun result : Grid × List GridEvent => (result.1, result.2.map GridEvent.report))
    hsame

end Grid

namespace LinearScan

variable {s : LinearScan} {e : Handle} {b : Box}

/-- The box of an entity that is in the row with it already is written over itself. -/
theorem update_eq_self (h : s.Indexed) (hbox : s.boxOf e = some b) : s.update e b = s := by
  obtain ⟨i, hentry⟩ := h.boxOf_eq_some.mp hbox
  have hslot : s.slots[e]? = some i := (h.slot_iff e i).mpr ⟨b, hentry⟩
  have hsame : (s.entries.modify i fun entry => { entry with snd := b }) = s.entries := by
    apply Array.ext_getElem?
    intro j
    rw [Array.getElem?_modify]
    split_ifs with hij
    · rw [← hij, hentry, Option.map_some]
    · rfl
  rw [update, hslot]
  dsimp only
  rw [hsame]

theorem absorbs_update (h : s.Indexed) (e : Handle) (position : Vec3) (bounds : Option Box) :
    Absorbs s (.update e position bounds) := by
  obtain ⟨hindexed, hbox⟩ := h.update e (extent position bounds)
  have hsame := update_eq_self hindexed ((hbox e).trans (if_pos rfl))
  exact congrArg (fun s : LinearScan => (s, [])) hsame

end LinearScan

namespace Tree

variable {layout : Layout} {t t' : Tree layout} {e : Handle} {box : Box}

/-- The range of heights is widened once by each box. -/
theorem widen_widen (span : Option Layout.HeightSpan) (box : Box) :
    widen (some (widen span box)) box = widen span box := by
  cases span with
  | none => simp only [widen, Scalar.lesser_self, Scalar.greater_self]
  | some span => simp only [widen, Scalar.lesser_lesser, Scalar.greater_greater]

/-- An entity that has the box already stays where it is, and with it everything else. It is
neither put in, being tracked, nor moved, since its box belongs to its node. -/
theorem Updates.eq_self {events : List TreeEvent} (h : t.Updates e box events t')
    (hwell : t.WellFormed) (hbox : t.boxOf e = some box)
    (hspan : t.span = some (widen t.span box)) : t' = t ∧ events = [] := by
  obtain ⟨slot, hrecord⟩ := exists_record hbox
  cases h with
  | insert hinserts => cases hrecord.symm.trans hinserts.untracked
  | @stay slot' old n hrecord' hn hfits =>
      obtain ⟨rfl, rfl⟩ := Location.mk.inj (Option.some.inj (hrecord.symm.trans hrecord'))
      refine ⟨?_, rfl⟩
      have hlocations : t.locations.insert e ⟨slot, box⟩ = t.locations :=
        insert_record_self t.locations hrecord
      change { t with span := some (widen t.span box)
                      locations := t.locations.insert e ⟨slot, box⟩ } = t
      rw [hlocations, ← hspan]
  | @move slot' old n _ _ _ _ hrecord' hn hfits =>
      obtain ⟨rfl, rfl⟩ := Location.mk.inj (Option.some.inj (hrecord.symm.trans hrecord'))
      exact absurd (hwell.placed.fits e slot box n.bare hrecord (frame_of_node hn)) hfits

/-- No update fails, and the same update once more changes nothing. -/
theorem exists_tryUpdate_again (h : t.WellFormed) (e : Handle) (box : Box) :
    ∃ t' events, t.tryUpdate e box = .ok (t', events) ∧ t'.tryUpdate e box = .ok (t', []) := by
  obtain ⟨t', events, hfirst, hupdates⟩ := exists_updates h e box
  obtain ⟨hwell, htracks, hspan, -⟩ := hupdates.spec h
  obtain ⟨t'', events', hsecond, hupdates'⟩ := exists_updates hwell e box
  have hbox : t'.boxOf e = some box := (htracks.box_eq e).trans (if_pos rfl)
  have hwidened : t'.span = some (widen t'.span box) := by
    rw [hspan, widen_widen]
  obtain ⟨rfl, rfl⟩ := hupdates'.eq_self hwell hbox hwidened
  exact ⟨t'', events, hfirst, hsecond⟩

theorem absorbs_update (h : t.WellFormed) (e : Handle) (position : Vec3) (bounds : Option Box) :
    let once := (SpatialIndex.apply t (.update e position bounds)).1
    Absorbs t (.update e position bounds) ∧
      once.step (.update e position bounds) = .ok (once, []) := by
  obtain ⟨t', events, hfirst, hsecond⟩ := exists_tryUpdate_again h e (extent position bounds)
  have hstep : t.step (.update e position bounds) = .ok (t', events) := hfirst
  have hstep' : t'.step (.update e position bounds) = .ok (t', []) := hsecond
  unfold Absorbs
  rw [apply_of_step hstep]
  exact ⟨apply_eq_of_step hstep', hstep'⟩

end Tree

namespace AnyIndex

/-- A change made again does nothing to an index that has taken it, and if this is a tree,
it is carried out and not given up. -/
structure Settles (index : AnyIndex) (change : Change) : Prop where
  absorbs : Absorbs index change
  quadtree : ∀ t, (apply index change).1 = .quadtree t → t.step change = .ok (t, [])
  octree : ∀ t, (apply index change).1 = .octree t → t.step change = .ok (t, [])

theorem settles_run {index₀ : AnyIndex} (hcreated : index₀.Created) (changes : List Change)
    (e : Handle) (position : Vec3) (bounds : Option Box) :
    Settles (run index₀ changes) (.update e position bounds) := by
  cases hcreated with
  | grid hcreate =>
      obtain ⟨hfiled, -⟩ := Grid.filed_of_create hcreate changes
      have habsorbs := Grid.absorbs_update hfiled e position bounds
      rw [run_grid]
      refine ⟨habsorbs.map fun _ _ => rfl, ?_, ?_⟩ <;> exact fun _ hother => nomatch hother
  | quadtree hcreate =>
      obtain ⟨hwell, -⟩ := Tree.wellFormed_of_create hcreate changes
      obtain ⟨habsorbs, hstep⟩ := Tree.absorbs_update hwell e position bounds
      rw [run_quadtree]
      refine ⟨habsorbs.map fun _ _ => rfl, ?_, fun _ hother => nomatch hother⟩
      intro t ht
      exact AnyIndex.quadtree.inj ht ▸ hstep
  | octree hcreate =>
      obtain ⟨hwell, -⟩ := Tree.wellFormed_of_create hcreate changes
      obtain ⟨habsorbs, hstep⟩ := Tree.absorbs_update hwell e position bounds
      rw [run_octree]
      refine ⟨habsorbs.map fun _ _ => rfl, (fun _ hother => nomatch hother), ?_⟩
      intro t ht
      exact AnyIndex.octree.inj ht ▸ hstep
  | scan deterministic =>
      obtain ⟨hindexed, -⟩ :=
        LinearScan.indexed_run (LinearScan.indexed_empty deterministic) changes
      have habsorbs := LinearScan.absorbs_update hindexed e position bounds
      rw [run_scan]
      refine ⟨habsorbs.map fun _ _ => rfl, ?_, ?_⟩ <;> exact fun _ hother => nomatch hother

/-- In every state of an index of any kind that changes lead to, an update with any box may be
repeated: the second time the index stays exactly as it is, with all of its lists, records,
slots and blocks, and reports nothing. The entity is tracked then, and in a tree the second
update is carried out without a fault. -/
theorem update_idempotent_of_run {index₀ : AnyIndex} (hcreated : index₀.Created)
    (changes : List Change) (e : Handle) (position : Vec3) (bounds : Option Box) :
    let update := Change.update e position bounds
    let once := (apply (run index₀ changes) update).1
    apply once update = (once, []) ∧ contains once e = true ∧
    (∀ t, once = .quadtree t → t.step update = .ok (t, [])) ∧
    ∀ t, once = .octree t → t.step update = .ok (t, []) := by
  intro update once
  have hsettles : Settles (run index₀ changes) update := settles_run hcreated changes e _ _
  have hrun : run index₀ (changes ++ [update]) = once := by
    rw [run_append, run_cons, run_nil]
  have hcontains : contains once e = true := by
    rw [← hrun, (tracksHistory_run hcreated _).contains_iff, lastUpdated_update]
    exact Or.inl rfl
  exact ⟨hsettles.absorbs, hcontains, hsettles.quadtree, hsettles.octree⟩

/-- An update for which a node merges and another one is divided does nothing the second time,
nor does one to a box that is none. -/
theorem update_idempotent_of_run_merges :
    let index := AnyIndex.octree (Tree.empty { maxDepth := 4, maxOccupants := 1 })
    let before := run index [.update ⟨1, 0⟩ (.splat 10) none, .update ⟨2, 0⟩ (.splat 11) none,
      .update ⟨3, 0⟩ (.splat 300) none, .remove ⟨1, 0⟩]
    let moved := apply before (.update ⟨2, 0⟩ (.splat 301) none)
    let lost := apply before (.update ⟨2, 0⟩ .zero (some ⟨.splat (1 / 0), .splat (0 / 0)⟩))
    moved.2.map (·.message) = ["Merged node 17 at depth 3 (block 3)",
      "Subdivided node 24 at depth 3 (block 3)"] ∧
    apply moved.1 (.update ⟨2, 0⟩ (.splat 301) none) = (moved.1, []) ∧
    apply lost.1 (.update ⟨2, 0⟩ .zero (some ⟨.splat (1 / 0), .splat (0 / 0)⟩)) =
      (lost.1, []) := by
  intro index before moved lost
  have hcreated : index.Created := .octree (Tree.create_eq_ok (by decide +kernel))
  have hmessages : moved.2.map (·.message) = ["Merged node 17 at depth 3 (block 3)",
      "Subdivided node 24 at depth 3 (block 3)"] := by
    decide +kernel
  obtain ⟨hmoved, -⟩ := update_idempotent_of_run hcreated
    [.update ⟨1, 0⟩ (.splat 10) none, .update ⟨2, 0⟩ (.splat 11) none,
      .update ⟨3, 0⟩ (.splat 300) none, .remove ⟨1, 0⟩] ⟨2, 0⟩ (.splat 301) none
  obtain ⟨hlost, -⟩ := update_idempotent_of_run hcreated
    [.update ⟨1, 0⟩ (.splat 10) none, .update ⟨2, 0⟩ (.splat 11) none,
      .update ⟨3, 0⟩ (.splat 300) none, .remove ⟨1, 0⟩] ⟨2, 0⟩ .zero
    (some ⟨.splat (1 / 0), .splat (0 / 0)⟩)
  exact ⟨hmessages, hmoved, hlost⟩

end AnyIndex

end Broadphase
