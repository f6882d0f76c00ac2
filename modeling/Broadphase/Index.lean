import Broadphase.Handle.Radix
import Broadphase.Journal.Entry
import Broadphase.Region
import Broadphase.Sink

/-!
What every index offers. An index tracks entities by their boxes and answers
four kinds of queries, each in three forms that agree with each other: as a list,
appended to an array, and written into a buffer of fixed size. An answer names no
entity twice and may name one too many; it misses one only at a seam, where two
nodes meet or rounding moves the edge of a cell. A deterministic index sorts its
answers by identifier. How handles of one identifier are ordered is left to the
sort, which is an argument of every query.
-/

namespace Broadphase

structure Stats where
  entities : Nat
  /-- Cells or reachable nodes. -/
  liveNodes : Nat
  /-- Cells or nodes kept for reuse. -/
  pooledNodes : Nat
  /-- Depth of the deepest reachable node. -/
  deepestLevel : Nat
  deriving DecidableEq, Repr, Inhabited

/-- A change to the set of tracked entities. -/
inductive Change where
  /-- Track an entity, or move it. Without a box it is a point. -/
  | update (e : Handle) (position : Vec3) (bounds : Option Box)
  | remove (e : Handle)
  | clear
  deriving DecidableEq

/-- The box an entity is indexed by. -/
def extent (position : Vec3) (bounds : Option Box) : Box := bounds.getD (.ofPoint position)

/-- An index of entities by their boxes. -/
class SpatialIndex (ι : Type) where
  /-- Make a change, and tell what there is to report about it. -/
  apply : ι → Change → ι × List Entry
  count : ι → Nat
  contains : ι → Handle → Bool
  stats : ι → Stats
  isDeterministic : ι → Bool
  /-- Hand the matches of a query to a receiver. -/
  collect {σ : Type} [Sink σ] : ι → Region → σ → Except Halt σ

namespace SpatialIndex

variable {ι : Type} [SpatialIndex ι]

def run (index : ι) (changes : List Change) : ι :=
  changes.foldl (fun index change => (apply index change).1) index

variable (index : ι) (region : Region)

/-- Sort the elements of an array from a position on. -/
def sortFrom (start : Nat) (out : Array Handle) (sort : List Handle → List Handle := Handle.sort) :
    Array Handle :=
  out.take start ++ (sort (out.toList.drop start)).toArray

/-- Append the matches of a query to an array. Only what was appended is
sorted. -/
def queryInto (seed : Array Handle) (sort : List Handle → List Handle := Handle.sort) :
    Array Handle :=
  match collect index region seed with
  | .ok out => if isDeterministic index then sortFrom seed.size out sort else out
  | .error _ => seed

def query (sort : List Handle → List Handle := Handle.sort) : List Handle :=
  (queryInto index region #[] sort).toList

/-- Write the matches of a query into a buffer. Nothing is returned when they do
not fit; otherwise their number and the buffer. -/
def querySpan (buffer : Array Handle) (sort : List Handle → List Handle := Handle.sort) :
    Option (Nat × Array Handle) :=
  match collect index region (Span.ofBuffer buffer) with
  | .ok writer =>
      let span := if isDeterministic index then writer.sort sort else writer.toSpan
      some (span.used, span.buffer)
  | .error _ => none

/-- The number that stands for an answer that does not fit. -/
def overflowCount : Int32 := -1

/-- An answer in a buffer as a single number: how many matches were written, if
that is a 32-bit integer, or that the answer does not fit. -/
def spanCount (answer : Option (Nat × Array Handle)) : Int32 :=
  match answer with
  | some (count, _) => if count < 2147483648 then Int32.ofNat count else overflowCount
  | none => overflowCount

end SpatialIndex

end Broadphase
