import Broadphase.Box
import Broadphase.Decimal.Text
import Broadphase.Journal.Entry
import Broadphase.Text.Quoted

/-!
Settings of the indices and what makes them unacceptable. Settings are plain
values that an index is built from once; the only thing that can fail is
building an index from settings that break a rule.
-/

namespace Broadphase

/-- Why an index refuses its settings. -/
inductive ConfigError where
  /-- The cell size is not a positive finite number. -/
  | cellSize (size : Float32)
  /-- The world is inverted on some axis or not finite. -/
  | worldBounds (reason : String)
  /-- The tree would be deeper than any tree may be. -/
  | maxDepth (depth : Nat)
  /-- A node could not hold even one entity. -/
  | nodeCapacity (capacity : Nat)
  deriving BEq

namespace ConfigError

def message : ConfigError → String
  | .cellSize size =>
      s!"Invalid cell size: {Scalar.text .plain size} (must be positive and finite)"
  | .worldBounds reason => s!"Invalid world bounds: {reason}"
  | .maxDepth depth => s!"Invalid max depth: {depth}"
  | .nodeCapacity capacity => s!"Invalid node capacity: {capacity}"

def detail : ConfigError → String
  | .cellSize size => s!"InvalidCellSize({Scalar.text .detailed size})"
  | .worldBounds reason => s!"InvalidWorldBounds({Quoted.text reason})"
  | .maxDepth depth => s!"InvalidMaxDepth({depth})"
  | .nodeCapacity capacity => s!"InvalidNodeCapacity({capacity})"

/-- The journal's report that an index refused its settings. -/
def report (source : String) (e : ConfigError) : Entry :=
  let entry : Entry :=
    { severity := .error, source, message := s!"Rejected configuration: {e.message}" }
  entry.raisedAt "Broadphase/Config.lean" 1

end ConfigError

inductive WorldFlaw where
  | notFinite (world : Box)
  | inverted (axis : Vec3.Axis) (lo hi : Float32)

def Vec3.Axis.letter : Vec3.Axis → String
  | .x => "x"
  | .y => "y"
  | .z => "z"

def WorldFlaw.reason : WorldFlaw → String
  | .notFinite world => s!"bounds must be finite (min {world.min.text}, max {world.max.text})"
  | .inverted axis lo hi =>
      let number := Scalar.text .plain
      s!"min.{axis.letter} {number lo} > max.{axis.letter} {number hi}"

/-- The first flaw of a world: not being finite comes first, then the axes in
order. -/
def Box.worldFlaw? (world : Box) : Option WorldFlaw :=
  if !world.isFinite then some (.notFinite world)
  else [Vec3.Axis.x, .y, .z].findSome? fun axis =>
    if world.max.along axis < world.min.along axis then
      some (.inverted axis (world.min.along axis) (world.max.along axis))
    else none

def Box.validateWorld (world : Box) : Except ConfigError Unit :=
  match world.worldFlaw? with
  | some flaw => .error (.worldBounds flaw.reason)
  | none => .ok ()

def defaultWorld : Box := ⟨.splat (-1024), .splat 1024⟩

structure GridConfig where
  cellSize : Float32 := 64
  /-- Nominal extent. It is checked and reported, and restricts nothing. -/
  world : Box := defaultWorld
  deterministic : Bool := false
  /-- Whether the storage of emptied cells is kept for reuse. -/
  pooling : Bool := true
  deriving DecidableEq

/-- Check the cell size, then the world. -/
def GridConfig.validate (c : GridConfig) : Except ConfigError Unit :=
  if 0 < c.cellSize && c.cellSize.isFinite then c.world.validateWorld
  else .error (.cellSize c.cellSize)

/-- The greatest depth a tree may have. Below it the cells of any useful world
are finer than the numbers that describe them. -/
def depthLimit : Nat := 24

structure TreeConfig where
  world : Box := defaultWorld
  /-- Depth at which nodes no longer split, the root having depth zero. -/
  maxDepth : Nat := 8
  /-- A leaf splits when it holds more entities than this. -/
  maxOccupants : Nat := 8
  deterministic : Bool := false
  /-- Whether retired child blocks are kept for reuse. -/
  pooling : Bool := true
  deriving DecidableEq

/-- Check the world, then the depth, then the capacity. -/
def TreeConfig.validate (c : TreeConfig) : Except ConfigError Unit := do
  c.world.validateWorld
  if depthLimit < c.maxDepth then throw (.maxDepth c.maxDepth)
  if c.maxOccupants = 0 then throw (.nodeCapacity c.maxOccupants)

end Broadphase
