import Broadphase.Region
import Broadphase.Sink
import Broadphase.Tree.Basic

/-!
Queries of a tree. A point query follows the one path on which entities at the
point can be stored. The other queries judge every node against the region:
a node outside is skipped with all that lies below it, a node inside is reported
with all that lies below it, and at any other node each entity is tested before
the children are judged. Entities at the root are always tested, because those
outside of the world are stored there.
-/

namespace Broadphase

namespace Tree

variable {layout : Layout} {σ : Type} [Sink σ]

/-- The node in a slot, as a step of a query. -/
def visit (t : Tree layout) (slot : Nat) : Except Halt Node :=
  match t.nodes[slot]? with
  | some n => .ok n
  | none => .error (.brokenLink slot)

/-- Hand over the entities of a node that pass a test of their world box. -/
def collectTested (t : Tree layout) (test : Box → Bool) (n : Node) (out : σ) : Except Halt σ :=
  n.occupants.foldlM
    (fun out e =>
      match t.locations[e]? with
      | some location => if test location.bounds then Sink.put out e else .ok out
      | none => .ok out)
    out

/-- Follow the path of a point from a slot to the leaf that it lies in. -/
def collectPath (t : Tree layout) (p : Vec3) (levels slot : Nat) (out : σ) : Except Halt σ := do
  let n ← t.visit slot
  let out ← t.collectTested (fun b => (layout.project b).containsPoint p) n out
  match n.children with
  | none => pure out
  | some block =>
      match levels with
      | 0 => throw (.tooDeep slot)
      | levels + 1 =>
          let child := layout.childIndex n.bounds.center p
          t.collectPath p levels (layout.firstSlot block + child) out

/-- Hand over every entity at or below a slot. -/
def collectAll (t : Tree layout) (levels slot : Nat) (out : σ) : Except Halt σ := do
  let n ← t.visit slot
  let out ← Sink.putAll out n.occupants
  match n.children with
  | none => pure out
  | some block =>
      match levels with
      | 0 => throw (.tooDeep slot)
      | levels + 1 =>
          (layout.blockSlots block).foldlM (fun out child => t.collectAll levels child out) out

/-- Hand over the entities at or below a slot that belong to a region, judging
nodes by `classify` and entities by `test`. -/
def collectRegion (t : Tree layout) (classify : Box → Containment) (test : Box → Bool)
    (levels slot : Nat) (out : σ) : Except Halt σ := do
  let n ← t.visit slot
  match classify n.bounds with
  | .outside => pure out
  | .inside => t.collectAll levels slot out
  | .partly =>
      let out ← t.collectTested test n out
      match n.children with
      | none => pure out
      | some block =>
          match levels with
          | 0 => throw (.tooDeep slot)
          | levels + 1 =>
              (layout.blockSlots block).foldlM
                (fun out child => t.collectRegion classify test levels child out) out

/-- Hand over the entities of the whole tree that belong to a region. The root's
entities are tested whatever the verdict on the root. -/
def collectFromRoot (t : Tree layout) (classify : Box → Containment) (test : Box → Bool)
    (out : σ) : Except Halt σ := do
  let root ← t.visit rootSlot
  let out ← t.collectTested test root out
  match root.children with
  | none => pure out
  | some block =>
      match classify root.bounds with
      | .outside => pure out
      | .inside =>
          (layout.blockSlots block).foldlM
            (fun out child => t.collectAll (t.config.maxDepth - 1) child out) out
      | .partly =>
          (layout.blockSlots block).foldlM
            (fun out child => t.collectRegion classify test (t.config.maxDepth - 1) child out) out

/-- Hand over the matches of a query. A ball of negative or NaN radius matches
nothing. Entities are tested in placement space, but against a viewing volume
with their box in the world. -/
def collect (t : Tree layout) (region : Region) (out : σ) : Except Halt σ :=
  match region with
  | .point p => do
      let p := layout.projectPoint p
      let root ← t.visit rootSlot
      if root.bounds.containsPoint p then t.collectPath p t.config.maxDepth rootSlot out
      else pure out
  | .sphere center radius =>
      if 0 ≤ radius then
        let center := layout.projectPoint center
        t.collectFromRoot (·.classifySphere center radius)
          (fun b => (layout.project b).intersectsSphere center radius) out
      else .ok out
  | .box query =>
      let query := layout.project query
      t.collectFromRoot (·.classifyBox query) (fun b => (layout.project b).intersects query) out
  | .frustum f =>
      t.collectFromRoot (fun node => f.classifyBox (layout.cullingVolume node t.span))
        f.intersectsBox out

def deepestBelow (t : Tree layout) (levels slot : Nat) : Except TreeFault Nat := do
  let n ← t.node slot
  match n.children with
  | none => pure n.depth
  | some block =>
      match levels with
      | 0 => throw (.tooDeep slot)
      | levels + 1 =>
          (layout.blockSlots block).foldlM
            (fun deepest child => do pure (max deepest (← t.deepestBelow levels child)))
            n.depth

end Tree

end Broadphase
