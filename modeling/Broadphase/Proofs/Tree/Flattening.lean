import Mathlib
import Broadphase.Proofs.Tree.Safety

/-!
A tree with its boxes flattened. Placement judges boxes in placement space alone, so it takes
the same way whether the boxes that are stored are those of the world or flattened ones: every
change of a tree, up to the heights it stores, is the flattened change of the flattened tree,
and does the same to nodes and pool.
-/

namespace Broadphase

@[simp]
theorem Layout.project_project (layout : Layout) (b : Box) :
    layout.project (layout.project b) = layout.project b := by
  cases layout <;> rfl

def Location.flat (layout : Layout) (location : Location) : Location :=
  { location with bounds := layout.project location.bounds }

def TreeConfig.flat (layout : Layout) (config : TreeConfig) : TreeConfig :=
  { config with world := layout.project config.world }

/-- The change with its heights flattened. -/
def Change.flat (layout : Layout) : Change → Change
  | .update e position bounds =>
      .update e (layout.projectPoint position) (bounds.map layout.project)
  | .remove e => .remove e
  | .clear => .clear

theorem extent_flat (layout : Layout) (position : Vec3) (bounds : Option Box) :
    extent (layout.projectPoint position) (bounds.map layout.project) =
      layout.project (extent position bounds) := by
  cases bounds <;> rfl

namespace Tree

variable {layout : Layout}

/-- The tree with all boxes flattened, and with another range of heights. -/
def flat (span : Option Layout.HeightSpan) (t : Tree layout) : Tree layout :=
  { t with
    config := t.config.flat layout
    locations := t.locations.map fun _ => Location.flat layout
    span }

/-- The result of an operation with the tree in it flattened. -/
def flatResult {α : Type} (span : Option Layout.HeightSpan) (result : Tree layout × α) :
    Tree layout × α := (result.1.flat span, result.2)

section Steps

variable (span : Option Layout.HeightSpan) (t : Tree layout)

@[simp] theorem pool_flat : (t.flat span).pool = t.pool := rfl

@[simp] theorem maxDepth_flat : (t.flat span).config.maxDepth = t.config.maxDepth := rfl

@[simp]
theorem size_flat : (t.flat span).locations.size = t.locations.size := Std.ExtTreeMap.size_map

@[simp] theorem node_flat (slot : Nat) : (t.flat span).node slot = t.node slot := rfl

@[simp]
theorem record_flat (e : Handle) :
    (t.flat span).locations[e]? = (t.locations[e]?).map (Location.flat layout) :=
  Std.ExtTreeMap.getElem?_map

@[simp]
theorem needsSplit_flat (n : Node) :
    needsSplit (t.flat span).config n = needsSplit t.config n := rfl

theorem insert_record_flat (e : Handle) (location : Location) :
    (t.flat span).locations.insert e (location.flat layout) =
      (t.locations.insert e location).map fun _ => Location.flat layout := by
  apply Std.ExtTreeMap.ext_getElem?
  intro other
  rw [record_insert, record_flat, Std.ExtTreeMap.getElem?_map, record_insert]
  split_ifs <;> rfl

theorem erase_record_flat (e : Handle) :
    (t.flat span).locations.erase e =
      (t.locations.erase e).map fun _ => Location.flat layout := by
  apply Std.ExtTreeMap.ext_getElem?
  intro other
  rw [record_erase, record_flat, Std.ExtTreeMap.getElem?_map, record_erase]
  split_ifs <;> rfl

theorem store_flat (slot : Nat) (n : Node) (e : Handle) (box : Box) :
    (t.flat span).store slot n e (layout.project box) = (t.store slot n e box).flat span := by
  have hrecords := insert_record_flat span t e ⟨slot, box⟩
  change { (t.setNode slot _).flat span with
           locations := (t.flat span).locations.insert e (Location.flat layout ⟨slot, box⟩) } = _
  rw [hrecords]
  rfl

theorem withdraw_flat (slot : Nat) (n : Node) (e : Handle) :
    (t.flat span).withdraw slot n e = (t.withdraw slot n e).flat span := by
  have hrecords := erase_record_flat span t e
  change { (t.setNode slot _).flat span with
           locations := (t.flat span).locations.erase e } = _
  rw [hrecords]
  rfl

theorem rebox_flat (slot : Nat) (e : Handle) (box : Box) :
    (t.flat span).rebox slot e (layout.project box) = (t.rebox slot e box).flat span := by
  have hrecords := insert_record_flat span t e ⟨slot, box⟩
  change { t.flat span with
           locations := (t.flat span).locations.insert e (Location.flat layout ⟨slot, box⟩) } = _
  rw [hrecords]
  rfl

theorem descend_flat (box : Box) (levels slot : Nat) :
    (t.flat span).descend box levels slot = t.descend box levels slot := by
  induction levels generalizing slot with
  | zero =>
      unfold descend
      rw [node_flat]
  | succ levels ih =>
      unfold descend
      simp only [node_flat, ih]

theorem target_flat (box : Box) : (t.flat span).target box = t.target box := by
  unfold target
  rw [node_flat]
  congr 1
  funext root
  split_ifs
  · exact descend_flat span t box _ rootSlot
  · rfl

end Steps

section Maps

variable {ε α β γ δ : Type}

/-- Two steps in a row go along with maps of their results if each does. -/
theorem bind_map {f : α → β} {g : γ → δ} {next : α → Except ε γ} {next' : β → Except ε δ}
    (hnext : ∀ a, next' (f a) = (next a).map g) (first : Except ε α) :
    first.map f >>= next' = (first >>= next).map g := by
  cases first with
  | error fault => rfl
  | ok a => exact hnext a

/-- A step whose result is the same comes first. -/
theorem bind_same {g : γ → δ} {next : α → Except ε γ} {next' : α → Except ε δ}
    (hnext : ∀ a, next' a = (next a).map g) (first : Except ε α) :
    first >>= next' = (first >>= next).map g := by
  cases first with
  | error fault => rfl
  | ok a => exact hnext a

/-- Steps that go along with a map of the state do so one after the other. -/
theorem foldlM_map {f : α → β} {g : α → γ → Except ε α} {g' : β → γ → Except ε β}
    (hstep : ∀ a c, g' (f a) c = (g a c).map f) (items : List γ) (a : α) :
    items.foldlM g' (f a) = (items.foldlM g a).map f := by
  induction items generalizing a with
  | nil => rfl
  | cons c items ih =>
      rw [List.foldlM_cons, List.foldlM_cons, hstep]
      exact bind_map ih (g a c)

end Maps

section Division

variable (span : Option Layout.HeightSpan) (t : Tree layout)

theorem layBlock_flat (slot : Nat) (n : Node) (block : Nat) :
    (t.flat span).layBlock slot n block = (t.layBlock slot n block).map (flat span) := by
  unfold layBlock
  simp only [show (t.flat span).nodes = t.nodes from rfl]
  split_ifs
  · rfl
  · apply foldlM_map
    intro u place
    apply bind_same
    intro old
    split_ifs <;> rfl

theorem migrate_flat (n : Node) (block : Nat) (state : Tree layout × Array Handle) (e : Handle) :
    migrate n block (flatResult span state) e =
      (migrate n block state e).map (flatResult span) := by
  obtain ⟨t, kept⟩ := state
  unfold migrate flatResult
  simp only [record_flat]
  cases t.locations[e]? with
  | none => rfl
  | some location =>
      simp only [Option.map_some, Location.flat, Layout.project_project]
      split_ifs
      · rfl
      · cases layout.sharedChild? n.bounds.center (layout.project location.bounds) with
        | none => rfl
        | some child =>
            apply bind_same
            intro into
            have hstore := store_flat span t (layout.firstSlot block + child) into e
              location.bounds
            exact congrArg (fun u => Except.ok (u, kept)) hstore

theorem subdivide_flat (slot : Nat) (n : Node) :
    (t.flat span).subdivide slot n = (t.subdivide slot n).map (flatResult span) := by
  unfold subdivide
  have hlay := layBlock_flat span ({ t with pool := t.pool.alloc.2 } : Tree layout) slot n
    t.pool.alloc.1
  change (({ t with pool := t.pool.alloc.2 } : Tree layout).flat span).layBlock slot n
    t.pool.alloc.1 >>= _ = _
  rw [hlay]
  apply bind_map
  intro laid
  have hmove := foldlM_map (migrate_flat span n t.pool.alloc.1) n.occupants.toList
    (laid.emptied slot n t.pool.alloc.1, #[])
  rw [Array.foldlM_toList, Array.foldlM_toList] at hmove
  change n.occupants.foldlM (migrate n t.pool.alloc.1)
    (flatResult span (laid.emptied slot n t.pool.alloc.1, #[])) >>= _ = _
  rw [hmove]
  apply bind_map
  intro moved
  rfl

theorem splitIfNeeded_flat (levels slot : Nat) :
    (t.flat span).splitIfNeeded levels slot =
      (t.splitIfNeeded levels slot).map (flatResult span) := by
  induction levels generalizing t slot with
  | zero =>
      unfold splitIfNeeded
      apply bind_same
      intro n
      rw [needsSplit_flat]
      split_ifs <;> rfl
  | succ levels ih =>
      unfold splitIfNeeded
      apply bind_same
      intro n
      rw [needsSplit_flat]
      split_ifs
      · rfl
      · simp only []
        rw [subdivide_flat]
        apply bind_map
        rintro ⟨divided, block, event⟩
        change List.foldlM _ (flatResult span (divided, [event])) _ = _
        apply foldlM_map
        intro state child
        change (state.1.flat span).splitIfNeeded levels child >>= _ = _
        rw [ih]
        apply bind_map
        intro split
        rfl

theorem insert_flat (e : Handle) (box : Box) :
    (t.flat span).insert e (layout.project box) = (t.insert e box).map (flatResult span) := by
  unfold Tree.insert
  rw [Layout.project_project, target_flat]
  apply bind_same
  intro slot
  apply bind_same
  intro n
  change ((t.flat span).store slot n e (layout.project box)).splitIfNeeded _ slot = _
  rw [store_flat]
  exact splitIfNeeded_flat span _ _ slot

end Division

section Merging

variable (span : Option Layout.HeightSpan) (t : Tree layout)

theorem retireBlock_flat (block : Nat) :
    (t.flat span).retireBlock block = (t.retireBlock block).map (flat span) := by
  apply foldlM_map
  intro u child
  apply bind_same
  intro old
  rfl

theorem releaseBlock_flat (block : Nat) :
    (t.flat span).releaseBlock block = (t.releaseBlock block).map (flat span) := by
  unfold releaseBlock
  simp only [pool_flat]
  cases t.pool.free block <;> rfl

theorem dropTail_flat : (t.flat span).dropTail = t.dropTail.flat span := by
  unfold dropTail
  simp only [show (t.flat span).config.pooling = t.config.pooling from rfl]
  split_ifs <;> rfl

theorem merge_flat (slot block : Nat) :
    (t.flat span).merge slot block = (t.merge slot block).map (flatResult span) := by
  unfold merge
  rw [retireBlock_flat]
  apply bind_map
  intro retired
  apply bind_same
  intro n
  change ((retired.setNode slot { n with children := none }).flat span).releaseBlock block
    >>= _ = _
  rw [releaseBlock_flat]
  apply bind_map
  intro released
  rw [dropTail_flat]
  apply bind_same
  intro n
  rfl

theorem mergeUpward_flat (levels : Nat) (slot : Option Nat) :
    (t.flat span).mergeUpward levels slot =
      (t.mergeUpward levels slot).map (flatResult span) := by
  induction levels generalizing t slot with
  | zero =>
      unfold mergeUpward
      cases slot with
      | none => rfl
      | some slot =>
          apply bind_same
          intro n
          cases n.children with
          | none => rfl
          | some block =>
              apply bind_same
              intro can
              cases can <;> rfl
  | succ levels ih =>
      unfold mergeUpward
      cases slot with
      | none => rfl
      | some slot =>
          apply bind_same
          intro n
          cases n.children with
          | none => rfl
          | some block =>
              apply bind_same
              intro can
              cases can with
              | false => rfl
              | true =>
                  change (t.flat span).merge slot block >>= _ = _
                  rw [merge_flat]
                  apply bind_map
                  intro merged
                  apply bind_same
                  intro n
                  rw [ih]
                  apply bind_map
                  intro rest
                  rfl

theorem remove_flat (e : Handle) :
    (t.flat span).remove e = (t.remove e).map (flatResult span) := by
  unfold remove
  rw [record_flat]
  cases t.locations[e]? with
  | none => rfl
  | some location =>
      apply bind_same
      intro n
      change ((t.flat span).withdraw location.slot n e).mergeUpward _ _ = _
      rw [withdraw_flat]
      exact mergeUpward_flat span _ _ _

end Merging

section Changes

variable (span : Option Layout.HeightSpan) (t : Tree layout)

theorem tryUpdate_flat (e : Handle) (box : Box) :
    (t.flat span).tryUpdate e (layout.project box) =
      (t.tryUpdate e box).map (flatResult (some (widen span (layout.project box)))) := by
  have hflat := record_flat span t e
  unfold tryUpdate
  cases hrecord : t.locations[e]? with
  | none =>
      rw [hrecord, Option.map_none] at hflat
      simp only [hrecord, hflat]
      exact insert_flat _ (t.widened box) e box
  | some location =>
      rw [hrecord, Option.map_some] at hflat
      simp only [hrecord, hflat, Layout.project_project]
      apply bind_same
      intro stays
      cases stays with
      | true =>
          have hrebox := rebox_flat (some (widen span (layout.project box))) (t.widened box)
            location.slot e box
          exact congrArg (fun u => Except.ok (u, [])) hrebox
      | false =>
          change ((t.widened box).flat (some (widen span (layout.project box)))).remove e
            >>= _ = _
          rw [remove_flat]
          apply bind_map
          intro removed
          change (removed.1.flat (some (widen span (layout.project box)))).insert e
            (layout.project box) >>= _ = _
          rw [insert_flat]
          apply bind_map
          intro inserted
          rfl

theorem flat_empty (config : TreeConfig) :
    (empty config : Tree layout).flat none = empty (config.flat layout) := by
  unfold flat empty TreeConfig.flat
  simp only [Layout.project_project]
  congr 1

theorem clear_flat : (t.flat span).clear = t.clear.flat none := by
  unfold clear flat
  simp only [TreeConfig.flat]
  congr 1

/-- A change of the flattened tree, when it is flattened too, is the change of the tree. -/
theorem step_flat (change : Change) :
    (t.flat span).step (change.flat layout) =
      (t.step change).map (flatResult (heightsAfter span (change.flat layout))) := by
  cases change with
  | update e position bounds =>
      have hupdate := tryUpdate_flat span t e (extent position bounds)
      simp only [Change.flat, heightsAfter, step, extent_flat]
      exact hupdate
  | remove e => exact remove_flat span t e
  | clear =>
      simp only [Change.flat, heightsAfter, step, clear_flat]
      rfl

theorem tryRun_flat (changes : List Change) :
    (t.flat span).tryRun (changes.map (Change.flat layout)) =
      (t.tryRun changes).map
        (flatResult ((changes.map (Change.flat layout)).foldl heightsAfter span)) := by
  induction changes generalizing span t with
  | nil => rfl
  | cons change changes ih =>
      rw [List.map_cons, List.foldl_cons]
      unfold tryRun
      rw [step_flat]
      apply bind_map
      intro first
      change (first.1.flat _).tryRun _ >>= _ = _
      rw [ih]
      apply bind_map
      intro rest
      rfl

end Changes

end Tree

end Broadphase
