import Broadphase.Tree.Basic

/-!
Putting entities into a tree. A box goes down from the root as long as one child
holds it whole. A leaf with too many occupants is divided, its occupants move
into the children that hold them, and the children are divided in turn; straddling
occupants stay.

Each recursion is bounded by the number of levels that the tree may still go
down, so the fault of going deeper is visible in the result.
-/

namespace Broadphase

namespace Tree

variable {layout : Layout}

/-- Whether a node holds more entities than a leaf may, and may be divided. -/
def needsSplit (config : TreeConfig) (n : Node) : Bool :=
  n.isLeaf && config.maxOccupants < n.occupants.size && n.depth < config.maxDepth

/-- Go down from a slot while one child holds the whole box. -/
def descend (t : Tree layout) (box : Box) (levels slot : Nat) : Except TreeFault Nat := do
  let n ← t.node slot
  match n.children with
  | none => pure slot
  | some block =>
      match layout.sharedChild? n.bounds.center box with
      | none => pure slot
      | some child =>
          match levels with
          | 0 => throw (.tooDeep slot)
          | levels + 1 => t.descend box levels (layout.firstSlot block + child)

/-- The slot where a box in placement space belongs. What is not wholly in the
world belongs to the root. -/
def target (t : Tree layout) (box : Box) : Except TreeFault Nat := do
  let root ← t.node rootSlot
  if root.bounds.contains box then t.descend box t.config.maxDepth rootSlot else pure rootSlot

/-- Whether an entity in a slot may stay there with a new box. -/
def staysIn (t : Tree layout) (slot : Nat) (box : Box) : Except TreeFault Bool := do
  let n ← t.node slot
  if n.bounds.contains box then
    pure (n.isLeaf || (layout.sharedChild? n.bounds.center box).isNone)
  else pure (slot = rootSlot)

/-- Lay out the children of a node in a block: in new slots at the end of the
array, or in retired ones, which must be empty. -/
def layBlock (t : Tree layout) (slot : Nat) (n : Node) (block : Nat) :
    Except TreeFault (Tree layout) :=
  let boxes := layout.children n.bounds n.bounds.center
  if layout.firstSlot block = t.nodes.size then
    let fresh := boxes.map fun b => Node.leaf b (n.depth + 1) (some slot)
    .ok { t with nodes := t.nodes ++ fresh.toArray }
  else
    ((layout.blockSlots block).zip boxes).foldlM
      (fun t (child, b) => do
        let old ← t.node child
        if old.occupants.isEmpty then
          pure (t.setNode child (.leaf b (n.depth + 1) (some slot)))
        else throw (.occupied child))
      t

/-- Move one occupant of a divided node into the child that holds it, or keep it
at the node. -/
def migrate (n : Node) (block : Nat) (state : Tree layout × Array Handle) (e : Handle) :
    Except TreeFault (Tree layout × Array Handle) :=
  let (t, kept) := state
  match t.locations[e]? with
  | none => .ok (t, kept)
  | some location =>
      let box := layout.project location.bounds
      if !n.bounds.contains box then .ok (t, kept.push e)
      else
        match layout.sharedChild? n.bounds.center box with
        | none => .ok (t, kept.push e)
        | some child => do
            let slot := layout.firstSlot block + child
            let into ← t.node slot
            let t := t.setNode slot { into with occupants := into.occupants.push e }
            pure ({ t with locations := t.locations.insert e { location with slot } }, kept)

/-- Divide a leaf. The block of its children is part of the result. -/
def subdivide (t : Tree layout) (slot : Nat) (n : Node) :
    Except TreeFault (Tree layout × Nat × TreeEvent) := do
  let (block, pool) := t.pool.alloc
  let t ← { t with pool }.layBlock slot n block
  let t := t.setNode slot { n with children := some block, occupants := #[] }
  let (t, kept) ← n.occupants.foldlM (migrate n block) (t, #[])
  let t := t.setNode slot { n with children := some block, occupants := kept }
  pure (t, block, .subdivided slot n.depth block)

/-- Divide the leaf in a slot if it holds too many entities, and then its
children where they still do. -/
def splitIfNeeded (t : Tree layout) (levels slot : Nat) :
    Except TreeFault (Tree layout × List TreeEvent) := do
  let n ← t.node slot
  if !needsSplit t.config n then pure (t, [])
  else
    match levels with
    | 0 => throw (.tooDeep slot)
    | levels + 1 =>
        let (t, block, event) ← t.subdivide slot n
        (layout.blockSlots block).foldlM
          (fun (t, events) child => do
            let (t, more) ← t.splitIfNeeded levels child
            pure (t, events ++ more))
          (t, [event])

/-- Store an entity that the tree does not hold. -/
def insert (t : Tree layout) (e : Handle) (bounds : Box) :
    Except TreeFault (Tree layout × List TreeEvent) := do
  let slot ← t.target (layout.project bounds)
  let n ← t.node slot
  let t := t.setNode slot { n with occupants := n.occupants.push e }
  let t := { t with locations := t.locations.insert e ⟨slot, bounds⟩ }
  t.splitIfNeeded t.config.maxDepth slot

end Tree

end Broadphase
