import Broadphase.Grid.Index
import Broadphase.LinearScan
import Broadphase.Tree.Index

/-!
An index whose kind is chosen at run time.
-/

namespace Broadphase

/-- One of the four kinds of indices. -/
inductive AnyIndex where
  | grid (g : Grid)
  | quadtree (t : Quadtree)
  | octree (t : Octree)
  | scan (s : LinearScan)

instance : SpatialIndex AnyIndex where
  apply index change :=
    match index with
    | .grid g => let (g, reports) := SpatialIndex.apply g change; (.grid g, reports)
    | .quadtree t => let (t, reports) := SpatialIndex.apply t change; (.quadtree t, reports)
    | .octree t => let (t, reports) := SpatialIndex.apply t change; (.octree t, reports)
    | .scan s => let (s, reports) := SpatialIndex.apply s change; (.scan s, reports)
  count
    | .grid g => SpatialIndex.count g
    | .quadtree t => SpatialIndex.count t
    | .octree t => SpatialIndex.count t
    | .scan s => SpatialIndex.count s
  contains
    | .grid g => SpatialIndex.contains g
    | .quadtree t => SpatialIndex.contains t
    | .octree t => SpatialIndex.contains t
    | .scan s => SpatialIndex.contains s
  stats
    | .grid g => SpatialIndex.stats g
    | .quadtree t => SpatialIndex.stats t
    | .octree t => SpatialIndex.stats t
    | .scan s => SpatialIndex.stats s
  isDeterministic
    | .grid g => SpatialIndex.isDeterministic g
    | .quadtree t => SpatialIndex.isDeterministic t
    | .octree t => SpatialIndex.isDeterministic t
    | .scan s => SpatialIndex.isDeterministic s
  collect
    | .grid g => SpatialIndex.collect g
    | .quadtree t => SpatialIndex.collect t
    | .octree t => SpatialIndex.collect t
    | .scan s => SpatialIndex.collect s

end Broadphase
