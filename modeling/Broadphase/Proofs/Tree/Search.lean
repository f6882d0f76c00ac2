import Mathlib
import Broadphase.Tree.Index
import Broadphase.Proofs.Handover
import Broadphase.Proofs.Tree.Reachability

/-!
What queries hand over. On a well-formed tree a query never stops at a fault: it
hands over the elements of a list, whatever the receiver is. The list names no
entity twice, because it is taken from the lists of the nodes on the walk. Which
entities it names depends on how sound the verdicts on the nodes are: a region
query misses nothing if what is below a node outside fails the test, and names
nothing too much if what is below a node inside passes it.
-/

namespace Broadphase

namespace Tree

variable {layout : Layout} {t : Tree layout}

/-- The entities of a node that pass a test. -/
def tested (t : Tree layout) (test : Box → Bool) (n : Node) : List Handle :=
  n.occupants.toList.filter fun e => (t.boxOf e).any test

/-- The entities in a slot as a list. -/
def held (t : Tree layout) (slot : Nat) : List Handle := (t.occupantsAt slot).toList

theorem handsOver_collectTested (t : Tree layout) (test : Box → Bool) (n : Node) :
    HandsOver (fun _ _ out => t.collectTested test n out) (t.tested test n) := by
  intro σ _ out
  unfold collectTested tested
  beta_reduce
  rw [← Array.foldlM_toList]
  induction n.occupants.toList generalizing out with
  | nil => rfl
  | cons e es ih =>
      rw [List.foldlM_cons, List.filter_cons]
      cases hrecord : t.locations[e]? with
      | none =>
          simp only [boxOf, hrecord, Option.map_none, Option.any_none, Bool.false_eq_true, if_false]
          exact ih out
      | some location =>
          simp only [boxOf, hrecord, Option.map_some, Option.any_some]
          cases test location.bounds with
          | false => exact ih out
          | true =>
              rw [if_pos rfl, if_pos rfl, List.foldlM_cons]
              exact congrArg (_ >>= ·) (funext fun out => ih out)

theorem visit_eq_ok {slot : Nat} {n : Node} (h : t.nodes[slot]? = some n) :
    t.visit slot = .ok n := by
  rw [visit, h]

section Lists

variable {slot : Nat} {n : Node}

theorem held_of_node (h : t.nodes[slot]? = some n) : t.held slot = n.occupants.toList :=
  congrArg Array.toList (occupantsAt_of_node h)

theorem tested_sublist (h : t.nodes[slot]? = some n) (test : Box → Bool) :
    (t.tested test n).Sublist (t.held slot) := held_of_node h ▸ List.filter_sublist

theorem mem_held (hplaced : t.Placed) {e : Handle} :
    e ∈ t.held slot ↔ ∃ box, t.locations[e]? = some ⟨slot, box⟩ := by
  rw [held, Array.mem_toList_iff]
  exact hplaced.stored_iff e slot

theorem mem_tested (hplaced : t.Placed) (hn : t.nodes[slot]? = some n) {test : Box → Bool}
    {e : Handle} :
    e ∈ t.tested test n ↔ ∃ box, t.locations[e]? = some ⟨slot, box⟩ ∧ test box = true := by
  rw [tested, List.mem_filter, ← held_of_node hn, mem_held hplaced]
  constructor
  · rintro ⟨⟨box, hrecord⟩, htest⟩
    rw [boxOf_of_record hrecord] at htest
    exact ⟨box, hrecord, htest⟩
  · rintro ⟨box, hrecord, htest⟩
    exact ⟨⟨box, hrecord⟩, by rwa [boxOf_of_record hrecord]⟩

/-- The lists of distinct slots have no entity in common. -/
theorem nodup_flatMap_held (hplaced : t.Placed) {slots : List Nat} (hnodup : slots.Nodup) :
    (slots.flatMap t.held).Nodup := by
  refine List.nodup_flatMap.mpr ⟨fun i _ => hplaced.nodup i, hnodup.imp fun {i j} hne => ?_⟩
  refine List.disjoint_left.mpr fun e hi hj => hne ?_
  obtain ⟨box, hrecord⟩ := (mem_held hplaced).mp hi
  obtain ⟨box', hrecord'⟩ := (mem_held hplaced).mp hj
  rw [hrecord, Option.some.injEq, Location.mk.injEq] at hrecord'
  exact hrecord'.1

end Lists

theorem handsOver_held {slot : Nat} {n : Node} (h : t.nodes[slot]? = some n) :
    HandsOver (fun _ _ out => Sink.putAll out n.occupants) (t.held slot) :=
  held_of_node h ▸ handsOver_putAll n.occupants

/-- Handing over a whole subtree takes the lists of the walk in order. -/
theorem handsOver_collectAll (harena : t.Arena) {levels slot : Nat} {n : Node}
    (h : t.Allows levels slot n) :
    HandsOver (fun _ _ out => t.collectAll levels slot out)
      ((t.walk levels slot).flatMap t.held) := by
  have hput := handsOver_held h.node_eq
  induction levels generalizing slot n with
  | zero =>
      have hleaf := h.leaf_of_zero harena
      intro σ _ out
      unfold collectAll
      rw [walk_leaf h.node_eq hleaf, List.flatMap_singleton, ← hput]
      simp only [visit_eq_ok h.node_eq, hleaf, bind, Except.bind, pure, Except.pure]
      cases Sink.putAll out n.occupants <;> rfl
  | succ levels ih =>
      cases hblock : n.children with
      | none =>
          intro σ _ out
          unfold collectAll
          rw [walk_leaf h.node_eq hblock, List.flatMap_singleton, ← hput]
          simp only [visit_eq_ok h.node_eq, hblock, bind, Except.bind, pure, Except.pure]
          cases Sink.putAll out n.occupants <;> rfl
      | some block =>
          have hchildren : HandsOver
              (fun _ _ out => (layout.blockSlots block).foldlM
                (fun out child => t.collectAll levels child out) out)
              ((layout.blockSlots block).flatMap fun child =>
                (t.walk levels child).flatMap t.held) :=
            .flatMap fun i hi => by
              obtain ⟨child, hchild, rfl⟩ := Layout.mem_blockSlots.mp hi
              obtain ⟨m, hallows, -⟩ := h.exists_child harena hblock hchild
              exact ih hallows (handsOver_held hallows.node_eq)
          intro σ _ out
          unfold collectAll
          rw [walk_divided h.node_eq hblock, List.flatMap_cons, List.flatMap_assoc,
            ← (hput.append hchildren) σ out]
          simp only [visit_eq_ok h.node_eq, hblock, bind, Except.bind]

/-- The verdicts on nodes are never wrong about entities stored below the root: what
is below a node outside fails the test. -/
def OutsideFails (t : Tree layout) (classify : Box → Containment) (test : Box → Bool) : Prop :=
  ∀ (i j : Nat) (m : Node) (e : Handle) (box : Box), t.Reachable i → t.nodes[i]? = some m →
    t.Under i j → j ≠ rootSlot → t.locations[e]? = some ⟨j, box⟩ →
    classify m.bounds = .outside → test box = false

/-- What is below a node inside passes the test. -/
def InsidePasses (t : Tree layout) (classify : Box → Containment) (test : Box → Bool) : Prop :=
  ∀ (i j : Nat) (m : Node) (e : Handle) (box : Box), t.Reachable i → t.nodes[i]? = some m →
    t.Under i j → j ≠ rootSlot → t.locations[e]? = some ⟨j, box⟩ →
    classify m.bounds = .inside → test box = true

/-- The entities that a list names, among those stored below a slot. -/
structure Finds (t : Tree layout) (slots : List Nat) (test : Box → Bool) (complete exact : Prop)
    (es : List Handle) : Prop where
  /-- Nothing is named twice, as nothing is stored twice. -/
  sublist : es.Sublist (slots.flatMap t.held)
  complete : complete → ∀ (e : Handle) (i : Nat) (box : Box), i ∈ slots →
    t.locations[e]? = some ⟨i, box⟩ → test box = true → e ∈ es
  exact : exact → ∀ e ∈ es, ∃ (i : Nat) (box : Box), i ∈ slots ∧
    t.locations[e]? = some ⟨i, box⟩ ∧ test box = true

namespace Finds

variable {slots slots' : List Nat} {test : Box → Bool} {complete exact : Prop}
  {es es' : List Handle}

theorem append (h : t.Finds slots test complete exact es)
    (h' : t.Finds slots' test complete exact es') :
    t.Finds (slots ++ slots') test complete exact (es ++ es') := by
  refine ⟨?_, ?_, ?_⟩
  · rw [List.flatMap_append]
    exact h.sublist.append h'.sublist
  · intro hc e i box hi hrecord htest
    rcases List.mem_append.mp hi with hi | hi
    · exact List.mem_append_left _ (h.complete hc e i box hi hrecord htest)
    · exact List.mem_append_right _ (h'.complete hc e i box hi hrecord htest)
  · intro he e hmem
    rcases List.mem_append.mp hmem with hmem | hmem
    · obtain ⟨i, box, hi, hfound⟩ := h.exact he e hmem
      exact ⟨i, box, List.mem_append_left _ hi, hfound⟩
    · obtain ⟨i, box, hi, hfound⟩ := h'.exact he e hmem
      exact ⟨i, box, List.mem_append_right _ hi, hfound⟩

theorem flatMap {tops : List Nat} {walks : Nat → List Nat} {found : Nat → List Handle}
    (h : ∀ i ∈ tops, t.Finds (walks i) test complete exact (found i)) :
    t.Finds (tops.flatMap walks) test complete exact (tops.flatMap found) := by
  induction tops with
  | nil => exact ⟨List.Sublist.refl _, fun _ e i box hi => absurd hi (by simp),
      fun _ e hmem => absurd hmem (by simp)⟩
  | cons i tops ih =>
      rw [List.flatMap_cons, List.flatMap_cons]
      exact (h i List.mem_cons_self).append (ih fun j hj => h j (List.mem_cons_of_mem i hj))

theorem tested (hplaced : t.Placed) {slot : Nat} {n : Node} (hn : t.nodes[slot]? = some n) :
    t.Finds [slot] test complete exact (t.tested test n) := by
  refine ⟨?_, ?_, ?_⟩
  · rw [List.flatMap_singleton]
    exact tested_sublist hn test
  · intro _ e i box hi hrecord htest
    obtain rfl := List.mem_singleton.mp hi
    exact (mem_tested hplaced hn).mpr ⟨box, hrecord, htest⟩
  · intro _ e hmem
    obtain ⟨box, hrecord, htest⟩ := (mem_tested hplaced hn).mp hmem
    exact ⟨slot, box, List.mem_singleton.mpr rfl, hrecord, htest⟩

end Finds

section Region

variable {classify : Box → Containment} {test : Box → Bool}

private theorem finds_outside {slot : Nat} {n : Node} {slots : List Nat}
    (hreachable : t.Reachable slot) (hn : t.nodes[slot]? = some n)
    (hbelow : ∀ i ∈ slots, t.Under slot i ∧ i ≠ rootSlot)
    (hverdict : classify n.bounds = .outside) :
    t.Finds slots test (t.OutsideFails classify test) (t.InsidePasses classify test) [] := by
  refine ⟨List.nil_sublist _, fun hout e i box hi hrecord htest => ?_,
    fun _ e hmem => absurd hmem (by simp)⟩
  obtain ⟨hunder, hne⟩ := hbelow i hi
  cases (hout slot i n e box hreachable hn hunder hne hrecord hverdict).symm.trans htest

private theorem finds_inside (hplaced : t.Placed) {slot : Nat} {n : Node} {slots : List Nat}
    (hreachable : t.Reachable slot) (hn : t.nodes[slot]? = some n)
    (hbelow : ∀ i ∈ slots, t.Under slot i ∧ i ≠ rootSlot) (hverdict : classify n.bounds = .inside) :
    t.Finds slots test (t.OutsideFails classify test) (t.InsidePasses classify test)
      (slots.flatMap t.held) := by
  refine ⟨List.Sublist.refl _, ?_, ?_⟩
  · intro _ e i box hi hrecord _
    exact List.mem_flatMap.mpr ⟨i, hi, (mem_held hplaced).mpr ⟨box, hrecord⟩⟩
  · intro hin e hmem
    obtain ⟨i, hi, hheld⟩ := List.mem_flatMap.mp hmem
    obtain ⟨box, hrecord⟩ := (mem_held hplaced).mp hheld
    obtain ⟨hunder, hne⟩ := hbelow i hi
    exact ⟨i, box, hi, hrecord, hin slot i n e box hreachable hn hunder hne hrecord hverdict⟩

theorem ne_root_of_mem_walk (harena : t.Arena) {levels slot : Nat} {n : Node}
    (h : t.Allows levels slot n) (hdepth : 0 < n.depth) {i : Nat} (hi : i ∈ t.walk levels slot) :
    i ≠ rootSlot := by
  rintro rfl
  obtain ⟨f, hf, -, hzero, -⟩ := harena.root
  have hle := (under_of_mem_walk hi).depth_le harena h.live (frame_of_node h.node_eq) hf
  rw [Node.bare_depth] at hle
  omega

/-- What a region query hands over below a node that is not the root. -/
theorem exists_collectRegion (h : t.WellFormed) {levels slot : Nat} {n : Node}
    (hallows : t.Allows levels slot n) (hdepth : 0 < n.depth) :
    ∃ es, HandsOver (fun _ _ out => t.collectRegion classify test levels slot out) es ∧
      t.Finds (t.walk levels slot) test (t.OutsideFails classify test)
        (t.InsidePasses classify test) es := by
  have hreachable := (reachable_iff_live h.arena slot).mpr hallows.live
  have hbelow (i : Nat) (hi : i ∈ t.walk levels slot) : t.Under slot i ∧ i ≠ rootSlot :=
    ⟨under_of_mem_walk hi, ne_root_of_mem_walk h.arena hallows hdepth hi⟩
  cases hverdict : classify n.bounds with
  | outside =>
      refine ⟨[], ?_, finds_outside hreachable hallows.node_eq hbelow hverdict⟩
      intro σ _ out
      unfold collectRegion
      simp only [visit_eq_ok hallows.node_eq, hverdict, bind, Except.bind, pure, Except.pure,
        List.foldlM_nil]
  | inside =>
      refine ⟨_, ?_,
        finds_inside h.placed hreachable hallows.node_eq hbelow hverdict⟩
      intro σ _ out
      unfold collectRegion
      rw [← handsOver_collectAll h.arena hallows σ out]
      simp only [visit_eq_ok hallows.node_eq, hverdict, bind, Except.bind]
  | partly =>
      have htested : HandsOver (fun _ _ out => t.collectTested test n out) (t.tested test n) :=
        handsOver_collectTested t test n
      cases hblock : n.children with
      | none =>
          rw [walk_leaf hallows.node_eq hblock]
          refine ⟨t.tested test n, ?_, .tested h.placed hallows.node_eq⟩
          intro σ _ out
          unfold collectRegion
          rw [← htested]
          simp only [visit_eq_ok hallows.node_eq, hverdict, hblock, bind, Except.bind, pure,
            Except.pure]
          cases t.collectTested test n out <;> rfl
      | some block =>
          cases levels with
          | zero => cases (hallows.leaf_of_zero h.arena).symm.trans hblock
          | succ levels =>
              have hchildren (i : Nat) (hi : i ∈ layout.blockSlots block) :
                  ∃ es, HandsOver (fun _ _ out => t.collectRegion classify test levels i out) es ∧
                    t.Finds (t.walk levels i) test (t.OutsideFails classify test)
                      (t.InsidePasses classify test) es := by
                obtain ⟨child, hchild, rfl⟩ := Layout.mem_blockSlots.mp hi
                obtain ⟨m, hallows', hup, -⟩ := hallows.exists_child h.arena hblock hchild
                exact exists_collectRegion h hallows' (by omega)
              choose! found hhands hfinds using hchildren
              refine ⟨t.tested test n ++ (layout.blockSlots block).flatMap found, ?_, ?_⟩
              · intro σ _ out
                unfold collectRegion
                rw [← (htested.append (HandsOver.flatMap hhands)) σ out]
                simp only [visit_eq_ok hallows.node_eq, hverdict, hblock, bind, Except.bind]
              · rw [walk_divided hallows.node_eq hblock]
                exact (Finds.tested h.placed hallows.node_eq).append (.flatMap hfinds)

/-- The walk from a divided root, and what may be said of each child. -/
theorem exists_rootChildren (harena : t.Arena) {n : Node}
    (hallows : t.Allows t.config.maxDepth rootSlot n) {block : Nat}
    (hblock : n.children = some block) :
    t.reachableSlots = rootSlot :: (layout.blockSlots block).flatMap
        (t.walk (t.config.maxDepth - 1)) ∧
      ∀ i ∈ layout.blockSlots block, t.Under rootSlot i ∧
        ∃ m, t.Allows (t.config.maxDepth - 1) i m ∧ 0 < m.depth := by
  have hlt : n.depth < t.config.maxDepth :=
    (harena.depth_lt hallows.live (frame_of_node hallows.node_eq)).resolve_left (by simp [hblock])
  have hlevels : t.config.maxDepth = t.config.maxDepth - 1 + 1 := by omega
  have hallows' : t.Allows (t.config.maxDepth - 1 + 1) rootSlot n := hlevels ▸ hallows
  constructor
  · rw [reachableSlots, hlevels, walk_divided hallows.node_eq hblock, ← hlevels]
  · intro i hi
    obtain ⟨child, hchild, rfl⟩ := Layout.mem_blockSlots.mp hi
    obtain ⟨m, hbelow, hup, -⟩ := hallows'.exists_child harena hblock hchild
    exact ⟨.child .self hallows.node_eq hblock hchild, m, hbelow, by omega⟩

theorem exists_collectFromRoot (h : t.WellFormed) (classify : Box → Containment)
    (test : Box → Bool) :
    ∃ es, HandsOver (fun _ _ out => t.collectFromRoot classify test out) es ∧
      t.Finds t.reachableSlots test (t.OutsideFails classify test) (t.InsidePasses classify test)
        es := by
  obtain ⟨n, hallows⟩ := Allows.root h.arena
  have htested : HandsOver (fun _ _ out => t.collectTested test n out) (t.tested test n) :=
    handsOver_collectTested t test n
  cases hblock : n.children with
  | none =>
      rw [reachableSlots, walk_leaf hallows.node_eq hblock]
      refine ⟨t.tested test n, ?_, .tested h.placed hallows.node_eq⟩
      intro σ _ out
      unfold collectFromRoot
      rw [← htested]
      simp only [visit_eq_ok hallows.node_eq, hblock, bind, Except.bind, pure, Except.pure]
      cases t.collectTested test n out <;> rfl
  | some block =>
      obtain ⟨hwalk, hchild⟩ := exists_rootChildren h.arena hallows hblock
      have hbelow (i : Nat) (hi : i ∈ (layout.blockSlots block).flatMap
          (t.walk (t.config.maxDepth - 1))) : t.Under rootSlot i ∧ i ≠ rootSlot := by
        obtain ⟨low, hlow, hi⟩ := List.mem_flatMap.mp hi
        obtain ⟨hunder, m, hallows', hdepth⟩ := hchild low hlow
        exact ⟨hunder.trans (under_of_mem_walk hi), ne_root_of_mem_walk h.arena hallows' hdepth hi⟩
      -- the entities at the root are tested whatever the verdict on it
      have hjoin {rest : (σ : Type) → [Sink σ] → σ → Except Halt σ} {es : List Handle}
          (hhands : HandsOver rest es)
          (hfinds : t.Finds ((layout.blockSlots block).flatMap (t.walk (t.config.maxDepth - 1)))
            test (t.OutsideFails classify test) (t.InsidePasses classify test) es)
          (hrest : ∀ (σ : Type) [Sink σ] (out : σ), t.collectFromRoot classify test out =
            t.collectTested test n out >>= rest σ) :
          ∃ es, HandsOver (fun _ _ out => t.collectFromRoot classify test out) es ∧
            t.Finds t.reachableSlots test (t.OutsideFails classify test)
              (t.InsidePasses classify test) es := by
        refine ⟨t.tested test n ++ es, ?_, ?_⟩
        · intro σ _ out
          rw [← (htested.append hhands) σ out]
          exact hrest σ out
        · rw [hwalk]
          exact (Finds.tested h.placed hallows.node_eq).append hfinds
      cases hverdict : classify n.bounds with
      | outside =>
          refine hjoin handsOver_nil (finds_outside .self hallows.node_eq hbelow hverdict) ?_
          intro σ _ out
          unfold collectFromRoot
          simp only [visit_eq_ok hallows.node_eq, hblock, hverdict, bind, Except.bind, pure,
            Except.pure]
      | inside =>
          have hhands : HandsOver
              (fun _ _ out => (layout.blockSlots block).foldlM
                (fun out child => t.collectAll (t.config.maxDepth - 1) child out) out)
              (((layout.blockSlots block).flatMap (t.walk (t.config.maxDepth - 1))).flatMap
                t.held) := by
            rw [List.flatMap_assoc]
            apply HandsOver.flatMap
            intro i hi
            obtain ⟨-, m, hallows', -⟩ := hchild i hi
            exact handsOver_collectAll h.arena hallows'
          refine hjoin hhands (finds_inside h.placed .self hallows.node_eq hbelow hverdict) ?_
          intro σ _ out
          unfold collectFromRoot
          simp only [visit_eq_ok hallows.node_eq, hblock, hverdict, bind, Except.bind]
      | partly =>
          have hchildren (i : Nat) (hi : i ∈ layout.blockSlots block) :
              ∃ es, HandsOver
                  (fun _ _ out => t.collectRegion classify test (t.config.maxDepth - 1) i out) es ∧
                t.Finds (t.walk (t.config.maxDepth - 1) i) test (t.OutsideFails classify test)
                  (t.InsidePasses classify test) es := by
            obtain ⟨-, m, hallows', hdepth⟩ := hchild i hi
            exact exists_collectRegion h hallows' hdepth
          choose! found hhands hfinds using hchildren
          refine hjoin (.flatMap hhands) (.flatMap hfinds) ?_
          intro σ _ out
          unfold collectFromRoot
          simp only [visit_eq_ok hallows.node_eq, hblock, hverdict, bind, Except.bind]

/-- The answer to a query that judges nodes and tests boxes: it misses nothing that
passes the test if no node is wrongly outside, and names only what passes it if no
node is wrongly inside. -/
theorem exists_answer (h : t.WellFormed) (region : Region) (classify : Box → Containment)
    (test : Box → Bool)
    (hcollect : ∀ (σ : Type) [Sink σ] (out : σ),
      t.collect region out = t.collectFromRoot classify test out) :
    ∃ es : List Handle,
      HandsOver (fun _ _ out => SpatialIndex.collect t region out) es ∧ es.Nodup ∧
      (t.OutsideFails classify test →
        ∀ e box, t.boxOf e = some box → test box = true → e ∈ es) ∧
      (t.InsidePasses classify test →
        ∀ e ∈ es, ∃ box, t.boxOf e = some box ∧ test box = true) := by
  obtain ⟨es, hhands, hfinds⟩ := exists_collectFromRoot h classify test
  have hquery : HandsOver (fun _ _ out => SpatialIndex.collect t region out) es :=
    fun σ _ out => (hcollect σ out).trans (hhands σ out)
  refine ⟨es, hquery, hfinds.sublist.nodup
    (nodup_flatMap_held h.placed (nodup_reachableSlots h.arena)), ?_, ?_⟩
  · intro hout e box hbox htest
    obtain ⟨slot, hrecord⟩ := exists_record hbox
    have hslot := (mem_reachableSlots h.arena slot).mpr
      ((reachable_iff_live h.arena slot).mpr (h.placed.live e slot box hrecord))
    exact hfinds.complete hout e slot box hslot hrecord htest
  · intro hin e hmem
    obtain ⟨i, box, -, hrecord, htest⟩ := hfinds.exact hin e hmem
    exact ⟨box, boxOf_of_record hrecord, htest⟩

end Region

end Tree

end Broadphase
