import Broadphase.BlockPool
import Broadphase.Config
import Broadphase.Handle
import Broadphase.Tree.Layout
import Std.Data.ExtTreeMap

/-!
The state of an adaptive tree. Each entity is stored once, at the deepest node
that contains it; an entity that straddles a split plane stays at the node above
the plane, and one outside of the world stays at the root. Nodes live in one
array of slots. Slot zero is the root, and every division takes a block of
sibling slots whose number the pool hands out.

Following a link is checked: a slot that is not there, or a descent below the
greatest depth, is a fault and not a value.
-/

namespace Broadphase

structure Node where
  /-- Bounds in placement space. -/
  bounds : Box
  depth : Nat
  /-- Slot of the parent; the root and retired nodes have none. -/
  parent : Option Nat
  /-- Block of the children; a leaf has none. -/
  children : Option Nat
  occupants : Array Handle
  deriving DecidableEq

namespace Node

def leaf (bounds : Box) (depth : Nat) (parent : Option Nat) : Node :=
  ⟨bounds, depth, parent, none, #[]⟩

def isLeaf (n : Node) : Bool := n.children.isNone

end Node

def rootSlot : Nat := 0

/-- Where an entity is stored, and its box in the world. -/
structure Location where
  slot : Nat
  bounds : Box
  deriving DecidableEq

/-- An adaptive tree over a layout. -/
structure Tree (layout : Layout) where
  config : TreeConfig
  nodes : Array Node
  pool : BlockPool
  locations : Std.ExtTreeMap Handle Location
  /-- Heights of everything indexed since the tree was last cleared. -/
  span : Option Layout.HeightSpan

/-- A tree over the ground plane. -/
abbrev Quadtree := Tree .quad

/-- A tree over all three axes. -/
abbrev Octree := Tree .oct

/-- Ways in which the structure of a tree could fail an operation. None of them
occurs in a tree built by the operations below. -/
inductive TreeFault where
  /-- A link leads to a slot that does not exist. -/
  | brokenLink (slot : Nat)
  /-- A descent or an ascent passes more levels than the tree may have. -/
  | tooDeep (slot : Nat)
  /-- A slot taken for reuse still holds entities. -/
  | occupied (slot : Nat)
  /-- A block is retired that is not in use. -/
  | pool (misuse : BlockPool.Misuse)
  deriving DecidableEq, Repr

/-- What happens to the structure of a tree. -/
inductive TreeEvent where
  | subdivided (slot depth block : Nat)
  /-- A node took back its empty children. -/
  | merged (slot depth block : Nat)
  /-- The tree was emptied, with a number of blocks kept for reuse. -/
  | cleared (pooled : Nat)
  deriving DecidableEq, Repr

def TreeEvent.report (source : String) : TreeEvent → Entry
  | .subdivided slot depth block =>
      { severity := .trace, source
        message := s!"Subdivided node {slot} at depth {depth} (block {block})" }
  | .merged slot depth block =>
      { severity := .trace, source
        message := s!"Merged node {slot} at depth {depth} (block {block})" }
  | .cleared pooled =>
      { severity := .debug, source
        message := s!"Cleared tree ({pooled} pooled blocks)" }

namespace Tree

variable {layout : Layout}

/-- The tree of a single empty root. -/
def empty (config : TreeConfig) : Tree layout where
  config := config
  nodes := #[.leaf (layout.project config.world) 0 none]
  pool := .empty config.pooling
  locations := ∅
  span := none

def creationReport (layout : Layout) (config : TreeConfig) : Entry where
  severity := .debug
  source := layout.source
  message := s!"Created tree (depth {config.maxDepth}, {config.maxOccupants} per node, " ++
    s!"pooling {config.pooling}, deterministic {config.deterministic})"

/-- Build a tree from settings, or refuse them. Either way there is something to
report. -/
def create (layout : Layout) (config : TreeConfig) :
    Except ConfigError (Tree layout) × List Entry :=
  match config.validate with
  | .ok () => (.ok (.empty config), [creationReport layout config])
  | .error e => (.error e, [e.report layout.source])

def node (t : Tree layout) (slot : Nat) : Except TreeFault Node :=
  match t.nodes[slot]? with
  | some n => .ok n
  | none => .error (.brokenLink slot)

def setNode (t : Tree layout) (slot : Nat) (n : Node) : Tree layout :=
  { t with nodes := t.nodes.setIfInBounds slot n }

def blockNodes (t : Tree layout) (block : Nat) : Except TreeFault (List Node) :=
  (layout.blockSlots block).mapM t.node

end Tree

end Broadphase
