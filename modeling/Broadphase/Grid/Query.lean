import Broadphase.Grid.Basic
import Broadphase.Region
import Broadphase.Sink

/-!
Queries of a grid. A query accepts cells, and the entities of the accepted cells
are its answer. An entity of several cells is handed over by one of them only:
the first cell of its block, in the order of the block, that the query accepts.
That cell is looked for once in a query and remembered in a small cache, where
entities may displace each other.
-/

namespace Broadphase

/-- The owning cells found so far in one query, one place for each remainder of
the identifiers modulo 64. -/
abbrev OwnerCache := Vector (Option (Handle × CellKey)) 64

namespace OwnerCache

def empty : OwnerCache := Vector.replicate 64 none

def place (e : Handle) : Fin 64 := Fin.ofNat 64 e.id.toNat

/-- The owning cell of an entity, if it is remembered. -/
def remembered? (cache : OwnerCache) (e : Handle) : Option CellKey :=
  match cache[place e] with
  | some (owned, k) => if owned = e then some k else none
  | none => none

/-- Remember the owning cell of an entity, in the place of another one. -/
def remember (cache : OwnerCache) (e : Handle) (k : CellKey) : OwnerCache :=
  cache.set (place e) (some (e, k))

/-- The owning cell of an entity: the remembered one, or the one that `find`
finds, which is then remembered. Only an entity not remembered is looked for. -/
def owner (cache : OwnerCache) (e : Handle) (find : Unit → Option CellKey) :
    OwnerCache × Option CellKey :=
  match cache.remembered? e with
  | some k => (cache, some k)
  | none =>
      match find () with
      | some k => (cache.remember e k, some k)
      | none => (cache, none)

end OwnerCache

namespace Grid

variable {σ : Type} [Sink σ]

/-- The first accepted cell in the block of an entity, or in the part of the
block that the query looks at. -/
def firstAccepted (g : Grid) (accepts : Box → Bool) (clip : Option CellRange)
    (range : CellRange) : Option CellKey :=
  let candidates :=
    match clip with
    | some clip => range.intersection clip
    | none => range
  candidates.find? fun k => accepts (g.cellBounds k)

/-- Hand over one entity of an accepted cell, if the cell owns it. -/
def emit (g : Grid) (accepts : Box → Bool) (clip : Option CellRange) (k : CellKey)
    (state : OwnerCache × σ) (e : Handle) : Except Halt (OwnerCache × σ) :=
  let (owners, out) := state
  match g.ranges[e]? with
  | none => .ok (owners, out)
  | some range =>
      if range.isSingle then do pure (owners, ← Sink.put out e)
      else
        let (owners, owner) := owners.owner e fun _ => g.firstAccepted accepts clip range
        if owner = some k then do pure (owners, ← Sink.put out e) else .ok (owners, out)

/-- Hand over the entities that a cell owns, if it is occupied and accepted. -/
def emitCell (g : Grid) (accepts : Box → Bool) (clip : Option CellRange)
    (state : OwnerCache × σ) (k : CellKey) : Except Halt (OwnerCache × σ) :=
  match g.cells[k]? with
  | none => .ok state
  | some occupants =>
      if accepts (g.cellBounds k) then occupants.foldlM (g.emit accepts clip k) state
      else .ok state

def emitCells (g : Grid) (accepts : Box → Bool) (clip : Option CellRange)
    (keys : List CellKey) (out : σ) : Except Halt σ := do
  let (_, out) ← keys.foldlM (g.emitCell accepts clip) (OwnerCache.empty, out)
  pure out

/-- The cells of a block that may be occupied: the block itself when it is no
larger than the set of occupied cells, otherwise the occupied cells in it. -/
def keysWithin (g : Grid) (range : CellRange) : List CellKey :=
  if range.count ≤ g.cells.size then range.toList
  else g.cells.keys.filter range.contains

/-- Hand over the entities of the accepted cells in a block. -/
def collectRange (g : Grid) (range : CellRange) (accepts : Box → Bool) (out : σ) :
    Except Halt σ :=
  if range.isEmpty || g.cells.isEmpty then .ok out
  else g.emitCells accepts (some range) (g.keysWithin range) out

/-- Hand over the matches of a query. A point asks for its whole cell; a ball of
negative or NaN radius matches nothing. -/
def collect (g : Grid) (region : Region) (out : σ) : Except Halt σ :=
  match region with
  | .point p =>
      match g.cells[g.cellKey p]? with
      | some occupants => Sink.putAll out occupants
      | none => .ok out
  | .sphere center radius =>
      if 0 ≤ radius then
        g.collectRange (g.cellRange (.around center (.splat radius)))
          (·.intersectsSphere center radius) out
      else .ok out
  | .box query => g.collectRange (g.cellRange query) (fun _ => true) out
  | .frustum f => g.emitCells f.intersectsBox none g.cells.keys out

end Grid

end Broadphase
