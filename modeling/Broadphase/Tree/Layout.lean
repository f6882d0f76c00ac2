import Broadphase.Box

/-!
The two ways in which a tree divides space. A quadtree splits the ground plane
and ignores height; an octree splits all three axes. Nodes live in placement
space, which a quadtree reaches by flattening heights to zero. Bit `k` of a
child's number tells on which side of the `k`-th split axis it lies, and points
on a split plane belong to the high side.
-/

namespace Broadphase

/-- How the nodes of a tree divide. -/
inductive Layout where
  | quad
  | oct
  deriving DecidableEq, Repr

namespace Layout

/-- The number of children of a node that is divided. -/
def arity : Layout → Nat
  | .quad => 4
  | .oct => 8

/-- The name in the journal of the trees with this layout. -/
def source : Layout → String
  | .quad => "galaxy3d::Quadtree"
  | .oct => "galaxy3d::Octree"

def projectPoint (layout : Layout) (p : Vec3) : Vec3 :=
  match layout with
  | .quad => ⟨p.x, 0, p.z⟩
  | .oct => p

def project (layout : Layout) (b : Box) : Box :=
  ⟨layout.projectPoint b.min, layout.projectPoint b.max⟩

/-- The bit of a child's number for one axis: set on the high side. -/
def side (center p : Float32) : Nat := if center ≤ p then 1 else 0

/-- The number of the child that a point belongs to. -/
def childIndex (layout : Layout) (center p : Vec3) : Nat :=
  match layout with
  | .quad => side center.x p.x + 2 * side center.z p.z
  | .oct => side center.x p.x + 2 * side center.y p.y + 4 * side center.z p.z

/-- The child that holds a whole box, when both of its corners belong to the
same one. -/
def sharedChild? (layout : Layout) (center : Vec3) (b : Box) : Option Nat :=
  let child := layout.childIndex center b.min
  if child = layout.childIndex center b.max then some child else none

/-- The half of an interval that a bit selects. -/
def half (low : Bool) (lo mid hi : Float32) : Float32 × Float32 :=
  if low then (lo, mid) else (mid, hi)

def childBounds (layout : Layout) (parent : Box) (center : Vec3) (index : Nat) : Box :=
  match layout with
  | .quad =>
      let x := half (!index.testBit 0) parent.min.x center.x parent.max.x
      let z := half (!index.testBit 1) parent.min.z center.z parent.max.z
      ⟨⟨x.1, parent.min.y, z.1⟩, ⟨x.2, parent.max.y, z.2⟩⟩
  | .oct =>
      let x := half (!index.testBit 0) parent.min.x center.x parent.max.x
      let y := half (!index.testBit 1) parent.min.y center.y parent.max.y
      let z := half (!index.testBit 2) parent.min.z center.z parent.max.z
      ⟨⟨x.1, y.1, z.1⟩, ⟨x.2, y.2, z.2⟩⟩

/-- The bounds of all children of a node, in the order of their numbers. -/
def children (layout : Layout) (parent : Box) (center : Vec3) : List Box :=
  (List.range layout.arity).map (layout.childBounds parent center)

structure HeightSpan where
  low : Float32
  high : Float32
  deriving DecidableEq

/-- The volume that stands for a node when culling. A flat node is raised to the
heights of everything indexed, if anything is. -/
def cullingVolume (layout : Layout) (node : Box) (span : Option HeightSpan) : Box :=
  match layout, span with
  | .quad, some span =>
      ⟨⟨node.min.x, span.low, node.min.z⟩, ⟨node.max.x, span.high, node.max.z⟩⟩
  | .quad, none => node
  | .oct, _ => node

/-- The slot of a block's first node. Slot zero is the root's, and the blocks of
children follow it. -/
def firstSlot (layout : Layout) (block : Nat) : Nat := 1 + block * layout.arity

def blockSlots (layout : Layout) (block : Nat) : List Nat :=
  List.range' (layout.firstSlot block) layout.arity

end Layout

end Broadphase
