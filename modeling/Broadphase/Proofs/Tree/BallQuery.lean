import Mathlib
import Broadphase.Proofs.Ball
import Broadphase.Proofs.Tree.BoxQuery

/-!
Ball queries. In a moderate world all nodes have finite corners and contain the boxes
stored below them, so the rounded distances of a node bound those of its boxes and no
verdict on a node is wrong about a box. The answer is exact for the rounded test of
boxes, whatever the radius is: a negative or NaN radius meets nothing, and squares
that overflow compare as infinities on both sides.
-/

namespace Broadphase

namespace Tree

variable {layout : Layout} {t : Tree layout}

/-- In a moderate world all nodes have finite corners. -/
theorem isReal_bounds (h : t.WellFormed) (hworld : t.world.Moderate) {i : Nat} {m : Node}
    (hi : t.Reachable i) (hm : t.nodes[i]? = some m) : m.bounds.IsReal := by
  obtain ⟨f, hf, hbounds, -⟩ := h.arena.root
  exact (contains_of_under h.arena (live_root t) hf (hbounds ▸ hworld) hi
    (frame_of_node hm)).2.isReal

end Tree

end Broadphase
