import Broadphase.Tree.Basic

/-!
Taking entities out of a tree. A node whose children have all become empty
leaves takes them back when its own entities fit into a leaf, and so may its
parent afterwards, up to the root. The block of the children goes back to the
pool; a tree that does not keep retired blocks gives up the slots at the end of
its array.
-/

namespace Broadphase

namespace Tree

variable {layout : Layout}

/-- Whether the node in a slot has children that are all empty leaves, and few
enough entities to be a leaf itself. -/
def canMerge (t : Tree layout) (slot : Nat) : Except TreeFault Bool := do
  let n ← t.node slot
  match n.children with
  | none => pure false
  | some block =>
      if t.config.maxOccupants < n.occupants.size then pure false
      else
        let children ← t.blockNodes block
        pure (children.all fun child => child.isLeaf && child.occupants.isEmpty)

/-- Detach the children in a block from their parent. Unless retired blocks are
kept, their storage is given up. -/
def retireBlock (t : Tree layout) (block : Nat) : Except TreeFault (Tree layout) :=
  (layout.blockSlots block).foldlM
    (fun t child => do
      let old ← t.node child
      let occupants := if t.config.pooling then old.occupants else #[]
      pure (t.setNode child { old with parent := none, occupants }))
    t

def releaseBlock (t : Tree layout) (block : Nat) : Except TreeFault (Tree layout) :=
  match t.pool.free block with
  | .ok pool => .ok { t with pool }
  | .error misuse => .error (.pool misuse)

/-- Drop the slots past the highest block in the pool's range, unless retired
blocks are kept. -/
def dropTail (t : Tree layout) : Tree layout :=
  if t.config.pooling then t
  else { t with nodes := t.nodes.take (layout.firstSlot t.pool.highWater) }

/-- Let a node take back the children in a block. -/
def merge (t : Tree layout) (slot block : Nat) : Except TreeFault (Tree layout × TreeEvent) := do
  let t ← t.retireBlock block
  let n ← t.node slot
  let t := t.setNode slot { n with children := none }
  let t ← t.releaseBlock block
  let t := t.dropTail
  let n ← t.node slot
  pure (t, .merged slot n.depth block)

/-- Merge the node in a slot if it can be, and then its ancestors while they can
be. -/
def mergeUpward (t : Tree layout) (levels : Nat) (slot : Option Nat) :
    Except TreeFault (Tree layout × List TreeEvent) :=
  match slot with
  | none => .ok (t, [])
  | some slot => do
      let n ← t.node slot
      match n.children with
      | none => pure (t, [])
      | some block =>
          if ← t.canMerge slot then
            match levels with
            | 0 => throw (.tooDeep slot)
            | levels + 1 =>
                let (t, event) ← t.merge slot block
                let n ← t.node slot
                let (t, events) ← t.mergeUpward levels n.parent
                pure (t, event :: events)
          else pure (t, [])

/-- Take an entity out of the tree, if it is there. A leaf that loses an entity
may let its parent merge; a divided node may itself merge. -/
def remove (t : Tree layout) (e : Handle) : Except TreeFault (Tree layout × List TreeEvent) :=
  match t.locations[e]? with
  | none => .ok (t, [])
  | some location => do
      let t := { t with locations := t.locations.erase e }
      let n ← t.node location.slot
      let t := t.setNode location.slot { n with occupants := swapErase n.occupants e }
      t.mergeUpward t.config.maxDepth (if n.isLeaf then n.parent else some location.slot)

end Tree

end Broadphase
