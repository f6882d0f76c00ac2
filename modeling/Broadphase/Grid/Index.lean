import Broadphase.Grid.Query
import Broadphase.Index

/-!
Grids as indices.
-/

namespace Broadphase

namespace Grid

/-- Make a change, and tell what it does to the cells. -/
def step (g : Grid) (change : Change) : Grid × List GridEvent :=
  match change with
  | .update e position bounds => g.update e (extent position bounds)
  | .remove e => (g.remove e, [])
  | .clear => (g.clear, [.cleared g.clear.spare.length])

instance : SpatialIndex Grid where
  apply g change :=
    let (g, events) := g.step change
    (g, events.map GridEvent.report)
  count g := g.ranges.size
  contains g e := g.ranges.contains e
  stats g := ⟨g.ranges.size, g.cells.size, g.spare.length, 0⟩
  isDeterministic g := g.config.deterministic
  collect := collect

end Grid

end Broadphase
