import Broadphase.Config
import Broadphase.Grid.Cursor
import Broadphase.Handle
import Broadphase.SwapErase
import Std.Data.ExtTreeMap

/-!
A uniform grid of cubic cells without bounds. Only occupied cells exist. An
entity is stored in every cell that its box overlaps, which form a block, and
the block of each entity is kept beside the cells. Moving an entity touches only
the cells in which its two blocks differ.
-/

namespace Broadphase

structure Grid where
  config : GridConfig
  cells : Std.ExtTreeMap CellKey (Array Handle)
  /-- The block of cells of every tracked entity. -/
  ranges : Std.ExtTreeMap Handle CellRange
  /-- The storage of emptied cells, kept for reuse. -/
  spare : List (Array Handle)

/-- What happens to the cells of a grid. -/
inductive GridEvent where
  /-- An entity tracked before now occupies other cells. -/
  | moved (e : Handle) (range : CellRange)
  /-- The grid was emptied, with the storage of some cells kept for reuse. -/
  | cleared (spare : Nat)
  deriving DecidableEq, Repr

namespace Grid

def source : String := "galaxy3d::Grid"

def empty (config : GridConfig) : Grid := ⟨config, ∅, ∅, []⟩

def creationReport (config : GridConfig) : Entry where
  severity := .debug
  source := source
  message := s!"Created grid (cell size {Scalar.text .plain config.cellSize}, " ++
    s!"pooling {config.pooling}, deterministic {config.deterministic})"

/-- Build a grid from settings, or refuse them. Either way there is something to
report. -/
def create (config : GridConfig) : Except ConfigError Grid × List Entry :=
  match config.validate with
  | .ok () => (.ok (.empty config), [creationReport config])
  | .error e => (.error e, [e.report source])

/-- The coordinate of the cell that a position lies in. -/
def cellCoordinate (size position : Float32) : Int32 := Scalar.floorInt32 (position / size)

def cellKey (g : Grid) (p : Vec3) : CellKey :=
  let size := g.config.cellSize
  ⟨cellCoordinate size p.x, cellCoordinate size p.y, cellCoordinate size p.z⟩

/-- The box of a cell in the world. -/
def cellBounds (g : Grid) (k : CellKey) : Box :=
  let size := g.config.cellSize
  let min := (Vec3.mk (Scalar.ofInt32 k.x) (Scalar.ofInt32 k.y) (Scalar.ofInt32 k.z)).scale size
  ⟨min, min + .splat size⟩

/-- The entities in a cell, in the order in which they are stored. -/
def cellEntities (g : Grid) (k : CellKey) : Array Handle := g.cells[k]?.getD #[]

def occupiedCells (g : Grid) : Nat := g.cells.size

def cellRange (g : Grid) (b : Box) : CellRange := ⟨g.cellKey b.min, g.cellKey b.max⟩

/-- Store an entity in a cell. A new cell takes spare storage if there is any. -/
def addToCell (e : Handle) (g : Grid) (k : CellKey) : Grid :=
  match g.cells[k]?, g.spare with
  | some occupants, _ => { g with cells := g.cells.insert k (occupants.push e) }
  | none, storage :: spare => { g with cells := g.cells.insert k (storage.push e), spare }
  | none, [] => { g with cells := g.cells.insert k #[e] }

/-- Take an entity out of a cell. A cell left empty goes away, and its storage
is kept if the grid does that. -/
def removeFromCell (e : Handle) (g : Grid) (k : CellKey) : Grid :=
  match g.cells[k]? with
  | none => g
  | some occupants =>
      let occupants := swapErase occupants e
      if occupants.isEmpty then
        { g with
          cells := g.cells.erase k
          spare := if g.config.pooling then occupants :: g.spare else g.spare }
      else { g with cells := g.cells.insert k occupants }

/-- Track an entity or move it to other cells: it leaves the cells it no longer
overlaps and enters those it newly overlaps. -/
def update (g : Grid) (e : Handle) (b : Box) : Grid × List GridEvent :=
  let new := g.cellRange b
  match g.ranges[e]? with
  | some old =>
      if old = new then (g, [])
      else
        let g := (old.toList.filter (!new.contains ·)).foldl (removeFromCell e) g
        let g := (new.toList.filter (!old.contains ·)).foldl (addToCell e) g
        ({ g with ranges := g.ranges.insert e new }, [.moved e new])
  | none =>
      let g := new.toList.foldl (addToCell e) g
      ({ g with ranges := g.ranges.insert e new }, [])

def remove (g : Grid) (e : Handle) : Grid :=
  match g.ranges[e]? with
  | none => g
  | some range =>
      range.toList.foldl (removeFromCell e) { g with ranges := g.ranges.erase e }

/-- Forget every entity. The storage of all cells is kept if the grid does
that. -/
def clear (g : Grid) : Grid :=
  { g with
    cells := ∅
    ranges := ∅
    spare := if g.config.pooling then g.cells.values.map (·.take 0) ++ g.spare else [] }

end Grid

def GridEvent.report : GridEvent → Entry
  | .moved e range =>
      { severity := .trace, source := Grid.source
        message := s!"Moved entity {e.id} to cells {range.min.text}..{range.max.text}" }
  | .cleared spare =>
      { severity := .debug, source := Grid.source
        message := s!"Cleared grid ({spare} spare cells)" }

end Broadphase
