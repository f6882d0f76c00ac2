import Mathlib
import Broadphase.Proofs.Handle.Radix
import Broadphase.Proofs.Tree.Invariant
import Broadphase.Proofs.Tree.Search

/-!
Point queries. A query follows one path of nodes and finds what is stored on it. An
entity whose box contains the point may be stored off that path in one way only: the
point lies on a split plane and the entity, which touches the plane from the low
side, is stored below the low child, while the path takes the high one. Updates that
keep an entity in its node can lead to this, but an insertion cannot.
-/

namespace Broadphase

namespace Tree

variable {layout : Layout} {t : Tree layout} {p : Vec3}

/-- The slots on the path of a point from a slot. -/
inductive PathTo (t : Tree layout) (p : Vec3) (top : Nat) : Nat → Prop where
  | self : PathTo t p top top
  | child {slot block : Nat} {n : Node} : PathTo t p top slot → t.nodes[slot]? = some n →
      n.children = some block →
      PathTo t p top (layout.firstSlot block + layout.childIndex n.bounds.center p)

theorem PathTo.trans {top middle slot : Nat} (h : t.PathTo p top middle)
    (h' : t.PathTo p middle slot) : t.PathTo p top slot := by
  induction h' with
  | self => exact h
  | child _ hn hblock ih => exact .child ih hn hblock

theorem PathTo.under {top slot : Nat} (h : t.PathTo p top slot) : t.Under top slot := by
  induction h with
  | self => exact .self
  | child _ hn hblock ih => exact .child ih hn hblock (Layout.childIndex_lt_arity _ _)

theorem PathTo.cases_down {top slot : Nat} {n : Node} (h : t.PathTo p top slot)
    (hn : t.nodes[top]? = some n) :
    slot = top ∨ ∃ block, n.children = some block ∧
      t.PathTo p (layout.firstSlot block + layout.childIndex n.bounds.center p) slot := by
  induction h with
  | self => exact Or.inl rfl
  | child _ hn' hblock' ih =>
      rcases ih with rfl | ⟨block, hblock, hpath⟩
      · obtain rfl := Option.some.inj (hn.symm.trans hn')
        exact Or.inr ⟨_, hblock', .self⟩
      · exact Or.inr ⟨block, hblock, .child hpath hn' hblock'⟩

/-- The entities on the path from a slot whose boxes contain the point. -/
structure FindsPath (t : Tree layout) (p : Vec3) (levels slot : Nat) (es : List Handle) : Prop where
  sublist : es.Sublist ((t.walk levels slot).flatMap t.held)
  mem_iff : ∀ e, e ∈ es ↔ ∃ (i : Nat) (box : Box), t.PathTo p slot i ∧
    t.locations[e]? = some ⟨i, box⟩ ∧ (layout.project box).containsPoint p = true

/-- A point query does not fail and hands over what it finds on the path. -/
theorem exists_collectPath (h : t.WellFormed) (p : Vec3) {levels slot : Nat} {n : Node}
    (hallows : t.Allows levels slot n) :
    ∃ es, HandsOver (fun _ _ out => t.collectPath p levels slot out) es ∧
      t.FindsPath p levels slot es := by
  have htested : HandsOver
      (fun _ _ out => t.collectTested (fun b => (layout.project b).containsPoint p) n out)
      (t.tested (fun b => (layout.project b).containsPoint p) n) := handsOver_collectTested t _ n
  have hsublist := tested_sublist hallows.node_eq fun b => (layout.project b).containsPoint p
  have hmem (e : Handle) : e ∈ t.tested (fun b => (layout.project b).containsPoint p) n ↔
      ∃ box, t.locations[e]? = some ⟨slot, box⟩ ∧ (layout.project box).containsPoint p = true :=
    mem_tested h.placed hallows.node_eq
  cases hblock : n.children with
  | none =>
      refine ⟨t.tested (fun b => (layout.project b).containsPoint p) n, ?_,
        ⟨?_, ?_⟩⟩
      · intro σ _ out
        unfold collectPath
        rw [← htested]
        simp only [visit_eq_ok hallows.node_eq, hblock, bind, Except.bind, pure, Except.pure]
        cases t.collectTested (fun b => (layout.project b).containsPoint p) n out <;> rfl
      · rwa [walk_leaf hallows.node_eq hblock, List.flatMap_singleton]
      · intro e
        rw [hmem]
        constructor
        · rintro ⟨box, hrecord, hin⟩
          exact ⟨slot, box, .self, hrecord, hin⟩
        · rintro ⟨i, box, hpath, hrecord, hin⟩
          rcases hpath.cases_down hallows.node_eq with rfl | ⟨block, hsome, -⟩
          · exact ⟨box, hrecord, hin⟩
          · cases hblock.symm.trans hsome
  | some block =>
      cases levels with
      | zero => cases (hallows.leaf_of_zero h.arena).symm.trans hblock
      | succ levels =>
          obtain ⟨m, hallows', -⟩ := hallows.exists_child h.arena hblock
            (Layout.childIndex_lt_arity n.bounds.center p)
          obtain ⟨es, hhands, hfinds⟩ := exists_collectPath h p hallows'
          refine ⟨t.tested (fun b => (layout.project b).containsPoint p) n ++ es, ?_, ⟨?_, ?_⟩⟩
          · intro σ _ out
            unfold collectPath
            rw [← (htested.append hhands) σ out]
            simp only [visit_eq_ok hallows.node_eq, hblock, bind, Except.bind]
          · have hchild : layout.firstSlot block + layout.childIndex n.bounds.center p ∈
                layout.blockSlots block :=
              Layout.mem_blockSlots.mpr ⟨_, Layout.childIndex_lt_arity n.bounds.center p, rfl⟩
            rw [walk_divided hallows.node_eq hblock, List.flatMap_cons, List.flatMap_assoc]
            refine hsublist.append (hfinds.sublist.trans ?_)
            rw [List.flatMap_def (l := layout.blockSlots block)]
            exact List.sublist_flatten_of_mem (List.mem_map_of_mem hchild)
          · intro e
            rw [List.mem_append, hmem, hfinds.mem_iff]
            constructor
            · rintro (⟨box, hrecord, hin⟩ | ⟨i, box, hpath, hrecord, hin⟩)
              · exact ⟨slot, box, .self, hrecord, hin⟩
              · exact ⟨i, box, (PathTo.child .self hallows.node_eq hblock).trans hpath, hrecord,
                  hin⟩
            · rintro ⟨i, box, hpath, hrecord, hin⟩
              rcases hpath.cases_down hallows.node_eq with rfl | ⟨block', hsome, hpath⟩
              · exact Or.inl ⟨box, hrecord, hin⟩
              · obtain rfl : block = block' := Option.some.inj (hblock.symm.trans hsome)
                exact Or.inr ⟨i, box, hpath, hrecord, hin⟩

/-- No query of a well-formed tree fails: it hands over the elements of some list, which are
taken from the lists of the nodes on the walk. -/
theorem exists_handsOver (h : t.WellFormed) (region : Region) :
    ∃ es, HandsOver (fun _ _ out => SpatialIndex.collect t region out) es ∧
      es.Sublist (t.reachableSlots.flatMap t.held) := by
  cases region with
  | point p =>
      obtain ⟨n, hallows⟩ := Allows.root h.arena
      by_cases hin : n.bounds.containsPoint (layout.projectPoint p) = true
      · obtain ⟨es, hhands, hfinds⟩ := exists_collectPath h (layout.projectPoint p) hallows
        refine ⟨es, fun σ _ out => ?_, hfinds.sublist⟩
        rw [← hhands]
        change t.collect (.point p) out = _
        simp only [collect, visit_eq_ok hallows.node_eq, hin, bind, Except.bind, if_true]
      · refine ⟨[], fun σ _ out => ?_, List.nil_sublist _⟩
        change t.collect (.point p) out = _
        simp only [collect, visit_eq_ok hallows.node_eq, hin, bind, Except.bind, pure, Except.pure,
          if_false, List.foldlM_nil, Bool.false_eq_true]
  | sphere center radius =>
      by_cases hradius : 0 ≤ radius
      · obtain ⟨es, hhands, hfinds⟩ := exists_collectFromRoot h
          (·.classifySphere (layout.projectPoint center) radius)
          (fun b => (layout.project b).intersectsSphere (layout.projectPoint center) radius)
        exact ⟨es, fun σ _ out => (if_pos hradius).trans (hhands σ out), hfinds.sublist⟩
      · exact ⟨[], fun σ _ out => if_neg hradius, List.nil_sublist _⟩
  | box query =>
      obtain ⟨es, hhands, hfinds⟩ := exists_collectFromRoot h (·.classifyBox (layout.project query))
        (fun b => (layout.project b).intersects (layout.project query))
      exact ⟨es, hhands, hfinds.sublist⟩
  | frustum f =>
      obtain ⟨es, hhands, hfinds⟩ := exists_collectFromRoot h
        (fun node => f.classifyBox (layout.cullingVolume node t.span)) f.intersectsBox
      exact ⟨es, hhands, hfinds.sublist⟩

/-- Some node above the slot is split by a plane that the point lies on or above,
while the slot is at or below a child on the low side of that plane. -/
def Shadowed (t : Tree layout) (p : Vec3) (slot : Nat) : Prop :=
  ∃ (above block child bit : Nat) (n : Node) (axis : Vec3.Axis), t.Reachable above ∧
    t.nodes[above]? = some n ∧ n.children = some block ∧ child < layout.arity ∧
      t.Under (layout.firstSlot block + child) slot ∧ layout.bit? axis = some bit ∧
        child.testBit bit = false ∧ n.bounds.center.along axis ≤ p.along axis

/-- The last step down to a slot below a child: it is the child, or the parent is
below it. -/
theorem Under.cases_up (harena : t.Arena) {top slot block child : Nat} {n : Node}
    (h : t.Under top (layout.firstSlot block + child)) (htop : t.Live top)
    (hlive : t.Live slot) (hn : t.nodes[slot]? = some n) (hblock : n.children = some block)
    (hchild : child < layout.arity) :
    layout.firstSlot block + child = top ∨ t.Under top slot := by
  generalize hlow : layout.firstSlot block + child = low at h
  cases h with
  | self => exact Or.inl rfl
  | @child slot' block' child' n' hunder hn' hblock' hchild' =>
      obtain ⟨rfl, -⟩ := Layout.firstSlot_add_inj hchild hchild' hlow
      obtain rfl := harena.owner_unique hlive (hunder.live harena htop) (frame_of_node hn)
        (frame_of_node hn') hblock hblock'
      exact Or.inr hunder

/-- A slot on the path of a point is not shadowed from it. -/
theorem PathTo.not_shadowed (harena : t.Arena) {slot : Nat} (h : t.PathTo p rootSlot slot) :
    ¬ t.Shadowed p slot := by
  induction h with
  | self =>
      rintro ⟨above, block, child, bit, n, axis, habove, hn, hblock, hchild, hunder, -⟩
      have hlive := (reachable_iff_live harena above).mp habove
      obtain ⟨g, hg, -, hdepth, -⟩ :=
        (harena.link above n.bare block hlive (frame_of_node hn) hblock).2 child hchild
      obtain ⟨f, hf, -, hzero, -⟩ := harena.root
      have hlow := hunder.depth_le harena
        (live_child (harena.link above n.bare block hlive (frame_of_node hn) hblock).1 hchild) hg hf
      omega
  | @child slot block n hpath hn hblock ih =>
      rintro ⟨above, block', child, bit, m, axis, habove, hm, hblock', hchild, hunder, hbit, htest,
        hle⟩
      have hlive := hpath.under.live harena (live_root t)
      have hlive' := (reachable_iff_live harena above).mp habove
      have huse' := (harena.link above m.bare block' hlive' (frame_of_node hm) hblock').1
      rcases hunder.cases_up harena (live_child huse' hchild) hlive hn hblock
        (Layout.childIndex_lt_arity _ _) with heq | hunder
      · obtain ⟨rfl, rfl⟩ := Layout.firstSlot_add_inj (Layout.childIndex_lt_arity _ _) hchild heq
        obtain rfl := harena.owner_unique hlive hlive' (frame_of_node hn) (frame_of_node hm) hblock
          hblock'
        obtain rfl := Option.some.inj (hn.symm.trans hm)
        rw [← Layout.testBit_childIndex hbit, htest] at hle
        exact Bool.false_ne_true hle
      · exact ih ⟨above, block', child, bit, m, axis, habove, hm, hblock', hchild, hunder, hbit,
          htest, hle⟩

/-- Every node above one that contains the point contains it, and if no split plane
is in the way they are the path to the node. -/
theorem pathTo_of_not_shadowed (harena : t.Arena) (hp : t.world.containsPoint p = true)
    {slot : Nat} (h : t.Reachable slot) {f : Node} (hf : t.frame slot = some f)
    (hin : f.bounds.containsPoint p = true) (hclear : ¬ t.Shadowed p slot) :
    t.PathTo p rootSlot slot := by
  induction h generalizing f with
  | self => exact .self
  | @child slot block child n hunder hn hblock hchild ih =>
      have hlive := (reachable_iff_live harena slot).mp hunder
      obtain ⟨-, -, hbounds⟩ := harena.child_frame hlive (frame_of_node hn) hblock hchild hf
      rw [hbounds] at hin
      have hparent := Layout.containsPoint_parent harena.acceptable
        (harena.tame slot n.bare hlive (frame_of_node hn)) hp hin
      have hpath := ih (frame_of_node hn) hparent fun ⟨above, block', child', bit, m, axis, habove,
          hm, hblock', hchild', hunder', hrest⟩ =>
        hclear ⟨above, block', child', bit, m, axis, habove, hm, hblock', hchild',
          .child hunder' hn hblock hchild, hrest⟩
      have hindex : layout.childIndex n.bounds.center p = child :=
        (Layout.childIndex_eq_iff hchild hin).mpr fun axis bit hbit htest hle =>
          hclear ⟨slot, block, child, bit, n, axis, hunder, hn, hblock, hchild, .self, hbit, htest,
            hle⟩
      exact hindex ▸ .child hpath hn hblock

/-- The way of a box down the tree is the path of each of its points. -/
theorem Descends.pathTo {box : Box} {slot : Nat} (h : t.Descends box slot)
    (hp : box.containsPoint p = true) : t.PathTo p rootSlot slot := by
  induction h with
  | root => exact .self
  | child _ hf hblock hshared ih =>
      obtain ⟨n, hn, rfl⟩ := exists_node_of_frame hf
      rw [Node.bare_bounds] at hshared
      rw [← Layout.childIndex_of_sharedChild? hshared hp]
      exact .child ih hn hblock

/-- A point query of a well-formed tree. Outside of the world it answers nothing, and
inside it finds the entities at the point that are not shadowed from it. -/
theorem query_point (h : t.WellFormed) (p : Vec3) :
    (t.world.containsPoint (layout.projectPoint p) = false →
      SpatialIndex.query t (.point p) = []) ∧
    (t.world.containsPoint (layout.projectPoint p) = true →
      (SpatialIndex.query t (.point p)).Nodup ∧
        ∀ e, e ∈ SpatialIndex.query t (.point p) ↔ ∃ (slot : Nat) (box : Box),
          t.locations[e]? = some ⟨slot, box⟩ ∧
            (layout.project box).containsPoint (layout.projectPoint p) = true ∧
            ¬ t.Shadowed (layout.projectPoint p) slot) := by
  obtain ⟨n, hallows⟩ := Allows.root h.arena
  have hroot : n.bounds = t.world := by
    obtain ⟨f, hf, hbounds, -⟩ := h.arena.root
    obtain rfl : n.bare = f := Option.some.inj ((frame_of_node hallows.node_eq).symm.trans hf)
    exact hbounds
  constructor
  · intro hout
    have hnone : HandsOver (fun _ _ out => SpatialIndex.collect t (.point p) out) [] := by
      intro σ _ out
      change t.collect (.point p) out = _
      simp only [collect, visit_eq_ok hallows.node_eq, hroot, hout, bind, Except.bind, pure,
        Except.pure, Bool.false_eq_true, if_false, List.foldlM_nil]
    exact (query_perm_of_handsOver Handle.sort_perm hnone).eq_nil
  · intro hin
    obtain ⟨es, hhands, hfinds⟩ := exists_collectPath h (layout.projectPoint p) hallows
    have hquery : HandsOver (fun _ _ out => SpatialIndex.collect t (.point p) out) es := by
      intro σ _ out
      rw [← hhands]
      change t.collect (.point p) out = _
      simp only [collect, visit_eq_ok hallows.node_eq, hroot, hin, bind, Except.bind, if_true]
    have hperm := query_perm_of_handsOver Handle.sort_perm hquery
    constructor
    · rw [hperm.nodup_iff]
      exact hfinds.sublist.nodup (nodup_flatMap_held h.placed (nodup_walk h.arena hallows))
    intro e
    rw [hperm.mem_iff, hfinds.mem_iff]
    constructor
    · rintro ⟨slot, box, hpath, hrecord, hcontains⟩
      exact ⟨slot, box, hrecord, hcontains, hpath.not_shadowed h.arena⟩
    · rintro ⟨slot, box, hrecord, hcontains, hclear⟩
      refine ⟨slot, box, ?_, hrecord, hcontains⟩
      have hlive := h.placed.live e slot box hrecord
      obtain ⟨f, hf⟩ := h.arena.exists_frame hlive
      rcases h.placed.fits e slot box f hrecord hf with ⟨rfl, -⟩ | ⟨hfits, -⟩
      · exact .self
      · exact pathTo_of_not_shadowed h.arena hin ((reachable_iff_live h.arena slot).mpr hlive) hf
          (Box.containsPoint_of_contains hfits hcontains) hclear

/-- In every state that changes lead to, a point query answers nothing outside of the
world, and inside it finds, each once, the tracked entities at the point that are not
stored below the low side of a split plane which has the point on its high side. An
entity that was just put at the point by an insertion is found. -/
theorem point_query_of_run {config : TreeConfig} {t₀ : Tree layout}
    (hcreate : (create layout config).1 = .ok t₀) (changes : List Change) (p : Vec3) :
    let t := SpatialIndex.run t₀ changes
    ((layout.project config.world).containsPoint (layout.projectPoint p) = false →
      SpatialIndex.query t (.point p) = []) ∧
    ((layout.project config.world).containsPoint (layout.projectPoint p) = true →
      (SpatialIndex.query t (.point p)).Nodup ∧
      (∀ e, e ∈ SpatialIndex.query t (.point p) ↔ ∃ (slot : Nat) (box : Box),
        trackedBoxes changes e = some box ∧ t.locations[e]? = some ⟨slot, box⟩ ∧
          (layout.project box).containsPoint (layout.projectPoint p) = true ∧
          ¬ t.Shadowed (layout.projectPoint p) slot) ∧
      ∀ e, ¬ t.Keeps e (.ofPoint p) →
        e ∈ SpatialIndex.query (SpatialIndex.run t₀ (changes ++ [.update e p none]))
          (.point p)) := by
  intro t
  obtain ⟨hwell, hconfig, hbox⟩ := wellFormed_of_create hcreate changes
  have hworld : (SpatialIndex.run t₀ changes).world = layout.project config.world := by
    rw [world, hconfig]
  obtain ⟨hout, hin⟩ := query_point hwell p
  rw [hworld] at hout hin
  refine ⟨hout, ?_⟩
  intro hp
  refine ⟨(hin hp).1, ?_, ?_⟩
  · intro e
    rw [(hin hp).2]
    constructor
    · rintro ⟨slot, box, hrecord, hfound⟩
      exact ⟨slot, box, hbox ▸ boxOf_of_record hrecord, hrecord, hfound⟩
    · rintro ⟨slot, box, -, hfound⟩
      exact ⟨slot, box, hfound⟩
  · intro e hkeeps
    obtain ⟨t', events, heq, hwell', htracks, hsettled⟩ := exists_tryUpdate hwell e (.ofPoint p)
    have hstep : (SpatialIndex.run t₀ changes).step (.update e p none) = .ok (t', events) := heq
    rw [SpatialIndex.run_append, SpatialIndex.run_cons, SpatialIndex.run_nil, apply_of_step hstep]
    have hworld' : t'.world = layout.project config.world := by
      rw [world, htracks.config_eq, hconfig]
    obtain ⟨slot, hrecord⟩ := exists_record ((htracks.box_eq e).trans (if_pos rfl))
    have hdescends := hsettled hkeeps slot (.ofPoint p) hrecord
    have hcontains :
        (layout.project (.ofPoint p)).containsPoint (layout.projectPoint p) = true := by
      rw [Box.containsPoint_iff] at hp ⊢
      intro axis
      have hnumber := (Scalar.le_iff.mp (hp axis).1).2.1
      exact ⟨Scalar.le_refl hnumber, Scalar.le_refl hnumber⟩
    exact ((query_point hwell' p).2 (hworld' ▸ hp)).2 e |>.mpr
      ⟨slot, .ofPoint p, hrecord, hcontains, (hdescends.pathTo hcontains).not_shadowed hwell'.arena⟩

/-- In a divided octree an entity moves within its node and is found there, since nothing shadows
the node. It then moves on to the middle of the world, which shadows the node and is not on the
way to it, and is not found, while an entity inserted there is. -/
theorem point_query_of_run_moved :
    let changes : List Change := [.update ⟨1, 0⟩ (.splat (-10)) none,
      .update ⟨2, 0⟩ (.splat 10) none, .update ⟨3, 0⟩ .zero (some ⟨.splat (-6), .splat 6⟩),
      .update ⟨1, 0⟩ (.splat (-5)) none]
    let toMiddle : List Change := changes ++ [.update ⟨1, 0⟩ .zero none]
    let t : Octree := SpatialIndex.run (empty { maxOccupants := 1 }) changes
    let t' : Octree := SpatialIndex.run (empty { maxOccupants := 1 }) toMiddle
    t.nodes.size = 9 ∧
      (∃ slot, t.locations[(⟨1, 0⟩ : Handle)]? = some ⟨slot, .ofPoint (.splat (-5))⟩ ∧
        ¬ t.Shadowed (.splat (-5)) slot) ∧
      SpatialIndex.query t' (.point .zero) = [⟨3, 0⟩] ∧ t'.Shadowed .zero 1 ∧
      ⟨4, 0⟩ ∈ SpatialIndex.query (SpatialIndex.run (empty { maxOccupants := 1 } : Octree)
        (toMiddle ++ [.update ⟨4, 0⟩ .zero none])) (.point .zero) := by
  intro changes toMiddle t t'
  have hcreate : (create .oct { maxOccupants := 1 }).1 = .ok (empty { maxOccupants := 1 }) :=
    create_eq_ok (by decide +kernel)
  obtain ⟨-, hfound, -⟩ := (point_query_of_run hcreate changes (.splat (-5))).2 (by decide +kernel)
  obtain ⟨-, hmissed, hinserted⟩ := (point_query_of_run hcreate toMiddle .zero).2 (by decide +kernel)
  have hmiddle : SpatialIndex.query t' (.point .zero) = [⟨3, 0⟩] := by decide +kernel
  refine ⟨by decide +kernel, ?_, hmiddle, ?_, hinserted ⟨4, 0⟩ ?_⟩
  · obtain ⟨slot, box, htracked, hrecord, -, hclear⟩ := (hfound ⟨1, 0⟩).mp (by decide +kernel)
    obtain rfl : Box.ofPoint (.splat (-5)) = box := Option.some.inj htracked
    exact ⟨slot, hrecord, hclear⟩
  · by_contra hclear
    have hmem : ⟨1, 0⟩ ∈ SpatialIndex.query t' (.point .zero) := (hmissed ⟨1, 0⟩).mpr
      ⟨1, .ofPoint .zero, rfl, by decide +kernel, by decide +kernel, hclear⟩
    rw [hmiddle] at hmem
    exact absurd hmem (by decide)
  · rintro ⟨slot, old, f, hrecord, -⟩
    exact absurd hrecord (by
      have hnone : t'.locations[(⟨4, 0⟩ : Handle)]? = none := by decide +kernel
      simp [t', hnone])

/-- Two entities divide the root of a world around the origin. The one in the lowest
child then moves to the origin, which its node still contains, and is not found there
although it is tracked at that point of the world. -/
theorem point_query_misses :
    (create .oct { maxOccupants := 1 }).1 = .ok (empty { maxOccupants := 1 }) ∧
      trackedBoxes [.update ⟨1, 0⟩ (.splat (-10)) none, .update ⟨2, 0⟩ (.splat 10) none,
        .update ⟨1, 0⟩ .zero none] ⟨1, 0⟩ = some (.ofPoint .zero) ∧
      (Layout.oct.project defaultWorld).containsPoint (Layout.oct.projectPoint .zero) = true ∧
      (Layout.oct.project (.ofPoint .zero)).containsPoint (Layout.oct.projectPoint .zero) = true ∧
      SpatialIndex.query (SpatialIndex.run (empty { maxOccupants := 1 } : Octree)
        [.update ⟨1, 0⟩ (.splat (-10)) none, .update ⟨2, 0⟩ (.splat 10) none,
          .update ⟨1, 0⟩ .zero none]) (.point .zero) = [] := by
  refine ⟨create_eq_ok ?_, ?_, ?_, ?_, ?_⟩ <;> decide +kernel

end Tree

end Broadphase
