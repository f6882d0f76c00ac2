import Broadphase.Index
import Broadphase.Tree.Placement
import Broadphase.Tree.Query
import Broadphase.Tree.Removal

/-!
Trees as indices. Every operation has a checked form, whose result is a fault if
the structure of the tree does not bear it, and a plain form, which leaves the
tree as it is in that case.
-/

namespace Broadphase

namespace Tree

variable {layout : Layout}

def widen (span : Option Layout.HeightSpan) (b : Box) : Layout.HeightSpan :=
  match span with
  | some span => ⟨Scalar.lesser span.low b.min.y, Scalar.greater span.high b.max.y⟩
  | none => ⟨b.min.y, b.max.y⟩

/-- Track an entity or move it. Where it may stay in its node only its box is
replaced; otherwise it is taken out and put in again. -/
def tryUpdate (t : Tree layout) (e : Handle) (b : Box) :
    Except TreeFault (Tree layout × List TreeEvent) := do
  let t := { t with span := some (widen t.span b) }
  match t.locations[e]? with
  | none => t.insert e b
  | some location =>
      if ← t.staysIn location.slot (layout.project b) then
        pure ({ t with locations := t.locations.insert e ⟨location.slot, b⟩ }, [])
      else
        let (t, merges) ← t.remove e
        let (t, splits) ← t.insert e b
        pure (t, merges ++ splits)

/-- Forget every entity. Retired blocks are kept with their slots, or everything
but the root is dropped. -/
def clear (t : Tree layout) : Tree layout :=
  let vacate (n : Node) : Node := { n with children := none, occupants := #[] }
  { t with
    nodes := if t.config.pooling then t.nodes.map vacate else (t.nodes.take 1).map vacate
    pool := if t.config.pooling then t.pool.releaseAll else t.pool.reset
    locations := ∅
    span := none }

/-- Make a change, and tell what it does to the structure. -/
def step (t : Tree layout) (change : Change) : Except TreeFault (Tree layout × List TreeEvent) :=
  match change with
  | .update e position bounds => t.tryUpdate e (extent position bounds)
  | .remove e => t.remove e
  | .clear => .ok (t.clear, [.cleared t.clear.pool.pooled])

/-- Make a change, and tell what there is to report about it. -/
def apply (t : Tree layout) (change : Change) : Tree layout × List Entry :=
  match t.step change with
  | .ok (t, events) => (t, events.map (·.report layout.source))
  | .error _ => (t, [])

/-- The bounds of the root in placement space. -/
def tryWorldBounds (t : Tree layout) : Except TreeFault Box := do
  pure (← t.node rootSlot).bounds

def tryEntityDepth (t : Tree layout) (e : Handle) : Except TreeFault (Option Nat) :=
  match t.locations[e]? with
  | none => .ok none
  | some location => do pure (some (← t.node location.slot).depth)

def tryStats (t : Tree layout) : Except TreeFault Stats := do
  let deepestLevel ← t.deepestBelow t.config.maxDepth rootSlot
  pure
    { entities := t.locations.size
      liveNodes := 1 + t.pool.live * layout.arity
      pooledNodes := t.pool.pooled * layout.arity
      deepestLevel }

instance : SpatialIndex (Tree layout) where
  apply := apply
  count t := t.locations.size
  contains t e := t.locations.contains e
  stats t := t.tryStats.toOption.getD default
  isDeterministic t := t.config.deterministic
  collect := collect

end Tree

end Broadphase
