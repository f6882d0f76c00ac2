import Mathlib
import Broadphase.Proofs.Tree.Division

/-!
Putting an entity into a tree. The way down from the root ends at a node where
the box belongs, so storing the entity there and dividing the node if need be
keep the invariant. An entity that was put in this way lies on the way that its
box takes down, and stays there while nodes are divided.
-/

namespace Broadphase

namespace Tree

variable {layout : Layout} {t t' : Tree layout}

/-- The way down from a node that contains a box ends where the box belongs. -/
theorem exists_descend (harena : t.Arena) (levels : Nat) {box : Box} {slot : Nat} {f : Node}
    (hlive : t.Live slot) (hf : t.frame slot = some f) (hin : f.bounds.contains box = true)
    (hlevels : t.config.maxDepth ≤ f.depth + levels) (hdescends : t.Descends box slot) :
    ∃ slot', t.descend box levels slot = .ok slot' ∧ t.Live slot' ∧ t.Descends box slot' ∧
      ∃ f', t.frame slot' = some f' ∧ Fits layout slot' f' box := by
  induction levels generalizing slot f with
  | zero =>
      obtain ⟨n, hn, rfl⟩ := exists_node_of_frame hf
      have hbottom : n.children = none :=
        (harena.depth_lt hlive hf).resolve_right (not_lt.mpr (by simpa using hlevels))
      refine ⟨slot, ?_, hlive, hdescends, n.bare, hf, Or.inr ⟨hin, Or.inl hbottom⟩⟩
      unfold descend
      rw [node_eq_ok hn]
      simp [hbottom, bind, Except.bind, pure, Except.pure]
  | succ levels ih =>
      obtain ⟨n, hn, rfl⟩ := exists_node_of_frame hf
      cases hchildren : n.children with
      | none =>
          refine ⟨slot, ?_, hlive, hdescends, n.bare, hf, Or.inr ⟨hin, Or.inl hchildren⟩⟩
          unfold descend
          rw [node_eq_ok hn]
          simp [hchildren, bind, Except.bind, pure, Except.pure]
      | some block =>
          cases hshared : layout.sharedChild? n.bounds.center box with
          | none =>
              refine ⟨slot, ?_, hlive, hdescends, n.bare, hf, Or.inr ⟨hin, Or.inr hshared⟩⟩
              unfold descend
              rw [node_eq_ok hn]
              simp [hchildren, hshared, bind, Except.bind, pure, Except.pure]
          | some child =>
              have hchild := Layout.sharedChild?_lt_arity hshared
              obtain ⟨huse, hlink⟩ := harena.link slot n.bare block hlive hf hchildren
              obtain ⟨g, hg, -, hgdepth, hgbounds⟩ := hlink child hchild
              have htame := harena.tame slot n.bare hlive hf
              have hgin : g.bounds.contains box = true :=
                hgbounds ▸ Layout.contains_childBounds htame hin hshared
              have hglevels : t.config.maxDepth ≤ g.depth + levels := by omega
              obtain ⟨slot', heq, hresult⟩ := ih (live_child huse hchild) hg hgin hglevels
                (.child hdescends hf hchildren hshared)
              refine ⟨slot', ?_, hresult⟩
              unfold descend
              rw [node_eq_ok hn]
              simp only [hchildren, hshared, bind, Except.bind]
              exact heq

theorem exists_target (harena : t.Arena) (box : Box) :
    ∃ slot, t.target box = .ok slot ∧ t.Live slot ∧ t.Descends box slot ∧
      ∃ f, t.frame slot = some f ∧ Fits layout slot f box := by
  obtain ⟨f, hf, -, hdepth, -⟩ := harena.root
  obtain ⟨n, hn, rfl⟩ := exists_node_of_frame hf
  unfold target
  rw [node_eq_ok hn]
  cases hin : n.bounds.contains box with
  | false =>
      refine ⟨rootSlot, ?_, live_root t, .root, n.bare, hf, Or.inl ⟨rfl, hin⟩⟩
      simp [hin, bind, Except.bind, pure, Except.pure]
  | true =>
      obtain ⟨slot, heq, hresult⟩ := exists_descend harena t.config.maxDepth (live_root t) hf hin
        (Nat.le_add_left _ _) .root
      refine ⟨slot, ?_, hresult⟩
      simp only [hin, bind, Except.bind, if_true]
      exact heq

/-- An entity may stay in a node exactly if the node is one where its box may be
stored. -/
theorem exists_staysIn {slot : Nat} {n : Node} (hn : t.nodes[slot]? = some n) (box : Box) :
    ∃ stays, t.staysIn slot box = .ok stays ∧ (stays = true ↔ Fits layout slot n.bare box) := by
  unfold staysIn
  rw [node_eq_ok hn]
  cases hin : n.bounds.contains box with
  | false =>
      refine ⟨decide (slot = rootSlot), ?_, ?_⟩
      · simp [hin, bind, Except.bind, pure, Except.pure]
      · simp [Fits, hin]
  | true =>
      refine ⟨n.isLeaf || (layout.sharedChild? n.bounds.center box).isNone, ?_, ?_⟩
      · simp [hin, bind, Except.bind, pure, Except.pure]
      · simp [Fits, hin, Node.isLeaf]

/-- What putting in an entity that the tree does not hold does: it is stored where the way down
of its box ends, and the node there is divided as far as need be. -/
inductive Inserts (t : Tree layout) (e : Handle) (box : Box) (events : List TreeEvent)
    (t' : Tree layout) : Prop where
  | intro {slot : Nat} {n : Node} : t.locations[e]? = none →
      t.target (layout.project box) = .ok slot → t.Descends (layout.project box) slot →
      t.Live slot → t.nodes[slot]? = some n → Fits layout slot n.bare (layout.project box) →
      Divisions (t.store slot n e box) [slot] events t' → Inserts t e box events t'

theorem Inserts.untracked {e : Handle} {box : Box} {events : List TreeEvent}
    (h : t.Inserts e box events t') : t.locations[e]? = none := by
  cases h with
  | intro hnew => exact hnew

/-- A new entity can be inserted. -/
theorem exists_inserts (h : t.WellFormed) {e : Handle} (hnew : t.locations[e]? = none) (box : Box) :
    ∃ t' events, t.insert e box = .ok (t', events) ∧ t.Inserts e box events t' := by
  obtain ⟨slot, htarget, hlive, hdescends, f, hf, hfits⟩ :=
    exists_target h.arena (layout.project box)
  obtain ⟨n, hn, rfl⟩ := exists_node_of_frame hf
  have hwell := h.store hlive hn hnew hfits
  have hnode := getElem?_store hn e box slot
  rw [if_pos rfl] at hnode
  obtain ⟨t', events, hsplit, hdivisions⟩ :=
    exists_splitIfNeeded t.config.maxDepth hwell hlive hnode (Nat.le_add_left _ _)
  refine ⟨t', events, ?_, .intro hnew htarget hdescends hlive hn hfits hdivisions⟩
  unfold insert
  rw [htarget]
  simp only [bind, Except.bind, node_eq_ok hn]
  exact hsplit

/-- Putting an entity in keeps the invariant, and the entity is found on the way that its box
takes. -/
theorem Inserts.spec {e : Handle} {box : Box} {events : List TreeEvent}
    (h : t.Inserts e box events t') (hwell : t.WellFormed) :
    t'.WellFormed ∧ t.Tracks e (some box) t' ∧ t'.span = t.span ∧
      Shallow t.config.maxDepth events ∧ Ledger t.pool events t'.pool ∧
      ∃ slot, t'.locations[e]? = some ⟨slot, box⟩ ∧ t'.Descends (layout.project box) slot := by
  obtain @⟨slot, n, hnew, -, hdescends, hlive, hn, hfits, hdivisions⟩ := h
  obtain ⟨hwell', hgrows, hshallow, hledger⟩ :=
    hdivisions.splits (hwell.store hlive hn hnew hfits)
  have hframe (i : Nat) : (t.store slot n e box).frame i = t.frame i :=
    frame_setNode_occupants hn _ i
  have hdescends' := hdescends.congr hframe
  have hrecord : (t.store slot n e box).locations[e]? = some ⟨slot, box⟩ := by
    have hget := record_insert t.locations e e (Location.mk slot box)
    rwa [if_pos rfl] at hget
  refine ⟨hwell', ⟨hgrows.config_eq, ?_⟩, hgrows.span_eq, hshallow, hledger,
    hgrows.descends e slot box hrecord hdescends'⟩
  intro other
  rw [hgrows.box_eq, boxOf_store]

end Tree

end Broadphase
