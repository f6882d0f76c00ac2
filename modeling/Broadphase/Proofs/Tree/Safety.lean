import Mathlib
import Broadphase.Proofs.Tree.Partition
import Broadphase.Proofs.Tree.PointQuery

/-!
A tree does not fail. Following a link to a slot that is not there, going below the greatest
depth, laying out children over stored entities and giving back a block that is not in use
are faults of a checked operation. None of them occurs in a state that changes lead to,
whatever the world, the boxes and the regions are: every operation has a result, and only a
buffer without room stops a query. The events of a change tell how far it went: merges go from a
node to its parent and end at the root at the latest, divisions end above the greatest depth,
and the blocks taken and given back balance.
-/

namespace Broadphase

namespace Tree

variable {layout : Layout} {t : Tree layout}

/-- Whatever is asked of the tree next has a result. -/
structure Faultless (t : Tree layout) : Prop where
  step : ∀ change, ∃ t' events, t.step change = .ok (t', events) ∧
    (SpatialIndex.apply t change).1 = t' ∧ t.Reports events ∧ Ledger t.pool events t'.pool
  /-- The way down of an insertion ends within the greatest depth. -/
  target : ∀ box, ∃ slot, t.target box = .ok slot ∧ t.Live slot
  collect_array : ∀ region (seed : Array Handle), ∃ out,
    SpatialIndex.collect t region seed = .ok out
  collect_buffer : ∀ region buffer,
    (∃ span, SpatialIndex.collect t region (Span.ofBuffer buffer) = .ok span) ∨
      SpatialIndex.collect t region (Span.ofBuffer buffer) = .error .full
  stats : t.tryStats = .ok (SpatialIndex.stats t) ∧
    (SpatialIndex.stats t).deepestLevel ≤ t.config.maxDepth
  entityDepth : ∀ e, ∃ depth, t.tryEntityDepth e = .ok depth ∧ ∀ d ∈ depth, d ≤ t.config.maxDepth
  /-- The way up of merges ends at the root, which has no parent. -/
  root : ∃ root : Node, t.nodes[rootSlot]? = some root ∧ root.parent = none ∧
    t.tryWorldBounds = .ok root.bounds
  /-- The slots are the root's and those of the blocks that exist, and the counters of the
  pool do not exceed the number of these blocks. -/
  size_eq : t.nodes.size = layout.firstSlot t.pool.highWater
  count_eq : t.pool.live + t.pool.pooled = t.pool.highWater

theorem exists_entityDepth (h : t.WellFormed) (e : Handle) :
    ∃ depth, t.tryEntityDepth e = .ok depth ∧ ∀ d ∈ depth, d ≤ t.config.maxDepth := by
  unfold tryEntityDepth
  cases hrecord : t.locations[e]? with
  | none => exact ⟨none, rfl, fun d hd => by cases hd⟩
  | some location =>
      have hlive := h.placed.live e location.slot location.bounds hrecord
      obtain ⟨n, hn⟩ := h.arena.exists_node hlive
      refine ⟨some n.depth, ?_, ?_⟩
      · simp only [node_eq_ok hn, bind, Except.bind, pure, Except.pure]
      · intro d hd
        obtain rfl := Option.some.inj hd
        exact h.arena.depth_le _ n.bare hlive (frame_of_node hn)

/-- The count of the levels meets no fault and counts no level below the greatest depth. -/
theorem tryStats_eq (harena : t.Arena) : t.tryStats = .ok (SpatialIndex.stats t) ∧
    (SpatialIndex.stats t).deepestLevel ≤ t.config.maxDepth := by
  obtain ⟨root, hallows⟩ := Allows.root harena
  obtain ⟨deepest, heq, hdeepest⟩ := exists_deepestBelow harena hallows
  obtain ⟨slot, hslot, n, hn, hdepth⟩ := hdeepest.attained
  have hlive := (reachable_iff_live harena slot).mp ((mem_reachableSlots harena slot).mp hslot)
  have hle := harena.depth_le slot n.bare hlive (frame_of_node hn)
  have hstats : t.tryStats = .ok ⟨t.locations.size, 1 + t.pool.live * layout.arity,
      t.pool.pooled * layout.arity, deepest⟩ := by
    unfold tryStats
    rw [heq]
    rfl
  have hplain : SpatialIndex.stats t = t.tryStats.toOption.getD default := rfl
  rw [hplain, hstats]
  exact ⟨rfl, hdepth ▸ hle⟩

/-- A well-formed tree has no fault left to meet. -/
theorem faultless_of_wellFormed (h : t.WellFormed) : t.Faultless := by
  have hcollect (region : Region) := exists_handsOver h region
  refine ⟨?_, ?_, ?_, ?_, tryStats_eq h.arena, exists_entityDepth h, ?_, h.arena.size_eq,
    h.arena.pool_sound.count⟩
  · intro change
    obtain ⟨t', events, hstep, -, -, -, -, hreports, hledger⟩ := exists_step h change
    exact ⟨t', events, hstep, apply_of_step hstep, hreports, hledger⟩
  · intro box
    obtain ⟨slot, htarget, hlive, -⟩ := exists_target h.arena box
    exact ⟨slot, htarget, hlive⟩
  · intro region seed
    obtain ⟨es, hhands, -⟩ := hcollect region
    exact ⟨_, collect_array_of_handsOver hhands seed⟩
  · intro region buffer
    obtain ⟨es, hhands, -⟩ := hcollect region
    rw [collect_buffer_of_handsOver hhands]
    split_ifs
    · exact Or.inl ⟨_, rfl⟩
    · exact Or.inr rfl
  · obtain ⟨f, hf, -, -, hparent⟩ := h.arena.root
    obtain ⟨root, hroot, rfl⟩ := exists_node_of_frame hf
    refine ⟨root, hroot, hparent, ?_⟩
    unfold tryWorldBounds
    rw [node_eq_ok hroot]
    rfl

/-- A sequence of changes in their checked form, with all that they do to the structure. -/
def tryRun (t : Tree layout) : List Change → Except TreeFault (Tree layout × List TreeEvent)
  | [] => .ok (t, [])
  | change :: changes => do
      let (t, events) ← t.step change
      let (t, more) ← t.tryRun changes
      pure (t, events ++ more)

theorem tryRun_cons {t' t'' : Tree layout} {change : Change} {changes : List Change}
    {events more : List TreeEvent} (hstep : t.step change = .ok (t', events))
    (hrun : t'.tryRun changes = .ok (t'', more)) :
    t.tryRun (change :: changes) = .ok (t'', events ++ more) := by
  simp only [tryRun, hstep, hrun, bind, Except.bind, pure, Except.pure]

/-- What is reported about a sequence of changes is what it does to the structure. -/
theorem journal_of_tryRun {t' : Tree layout} {changes : List Change} {events : List TreeEvent}
    (h : t.tryRun changes = .ok (t', events)) :
    SpatialIndex.journal t changes = events.map (·.report layout.source) := by
  induction changes generalizing t t' events with
  | nil =>
      obtain ⟨-, rfl⟩ := Prod.mk.inj (Except.ok.inj h)
      rfl
  | cons change changes ih =>
      unfold tryRun at h
      cases hstep : t.step change with
      | error fault =>
          rw [hstep] at h
          cases h
      | ok first =>
          obtain ⟨t₁, reported⟩ := first
          cases hrun : t₁.tryRun changes with
          | error fault =>
              simp only [hstep, hrun, bind, Except.bind] at h
              cases h
          | ok rest =>
              obtain ⟨t₂, more⟩ := rest
              simp only [hstep, hrun, bind, Except.bind, pure, Except.pure] at h
              obtain ⟨-, rfl⟩ := Prod.mk.inj (Except.ok.inj h)
              rw [SpatialIndex.journal, apply_eq_of_step hstep, List.map_append, ← ih hrun]

/-- A sequence of changes does not fail, and the blocks balance over all of it. -/
theorem exists_tryRun (h : t.WellFormed) (changes : List Change) :
    ∃ events, t.tryRun changes = .ok (SpatialIndex.run t changes, events) ∧
      Ledger t.pool events (SpatialIndex.run t changes).pool := by
  induction changes generalizing t with
  | nil => exact ⟨[], rfl, .nil t.pool⟩
  | cons change changes ih =>
      obtain ⟨t', events, hstep, hwell, -, -, -, -, hledger⟩ := exists_step h change
      obtain ⟨more, hrun, hledger'⟩ := ih hwell
      rw [SpatialIndex.run_cons, apply_of_step hstep]
      exact ⟨events ++ more, tryRun_cons hstep hrun, hledger.append hledger'⟩

/-- In every accepted world and with boxes of any kind, changes do not fail, the blocks
balance from the empty pool on, and in the state they lead to every operation has a result. -/
theorem faultless_of_run {config : TreeConfig} {t₀ : Tree layout}
    (hcreate : (create layout config).1 = .ok t₀) (changes : List Change) :
    let t := SpatialIndex.run t₀ changes
    (∃ events, t₀.tryRun changes = .ok (t, events) ∧
      Ledger (.empty config.pooling) events t.pool) ∧ t.Faultless := by
  intro t
  obtain ⟨rfl, hworld⟩ := eq_empty_of_create hcreate
  exact ⟨exists_tryRun (wellFormed_empty hworld) changes,
    faultless_of_wellFormed (wellFormed_of_create hcreate changes).1⟩

/-- In a world of one point no division separates two entities, so there are as many as the
depth allows. When one of them is gone and the other moves to nowhere, both divided nodes
merge and the array loses all slots but the root's. -/
theorem faultless_of_run_degenerate :
    let t : Octree := SpatialIndex.run
      (empty { world := ⟨.splat 1, .splat 1⟩, maxDepth := 2, maxOccupants := 1, pooling := false })
      [.update ⟨1, 0⟩ (.splat 1) none, .update ⟨2, 0⟩ (.splat 1) none, .remove ⟨1, 0⟩]
    (∃ events, Ledger (.empty false) events t.pool) ∧ t.nodes.size = 17 ∧
      ∃ t', t.step (.update ⟨2, 0⟩ (.splat (0 / 0)) none) =
          .ok (t', [.merged 8 1 1, .merged 0 0 0]) ∧
        t'.nodes.size = 1 ∧ Ledger t.pool [.merged 8 1 1, .merged 0 0 0] t'.pool := by
  intro t
  have hvalid : (TreeConfig.validate { world := ⟨.splat 1, .splat 1⟩, maxDepth := 2,
                                       maxOccupants := 1, pooling := false }).isOk = true := by
    decide +kernel
  obtain ⟨⟨before, -, hbefore⟩, hfaultless⟩ := faultless_of_run (@create_eq_ok .oct _ hvalid)
    [.update ⟨1, 0⟩ (.splat 1) none, .update ⟨2, 0⟩ (.splat 1) none, .remove ⟨1, 0⟩]
  obtain ⟨t', events, hstep, -, -, hledger⟩ :=
    hfaultless.step (.update ⟨2, 0⟩ (.splat (0 / 0)) none)
  have hevents : (t.step (.update ⟨2, 0⟩ (.splat (0 / 0)) none)).toOption.map
      (fun result => (result.1.nodes.size, result.2)) =
      some (1, [.merged 8 1 1, .merged 0 0 0]) := by
    decide +kernel
  rw [hstep] at hevents
  obtain ⟨hsize, rfl⟩ := Prod.mk.inj (Option.some.inj hevents)
  exact ⟨⟨before, hbefore⟩, by decide +kernel, t', hstep, hsize, hledger⟩

end Tree

end Broadphase
