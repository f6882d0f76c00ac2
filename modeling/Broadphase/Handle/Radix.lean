import Broadphase.Handle

/-!
Sorting by the bytes of a 32-bit key. One pass deals the elements into 256
buckets by one byte and gathers the buckets in order; elements of equal byte
keep their order. Passes from the least significant byte to the most significant
one sort by the key and leave elements of equal key in their order.

The key of a handle is its identifier. A sort by the digits of keys need not leave
ties as they are, so which sort an index uses is open. Unless told otherwise it
sorts by generation first and then by identifier, so that handles sharing an
identifier end up in order of generation.
-/

namespace Broadphase

namespace Radix

variable {α : Type}

def levels : Nat := 4

/-- The byte of a key at a level, level zero being the least significant one. -/
def byte (key : UInt32) (level : Nat) : UInt8 := (key >>> UInt32.ofNat (8 * level)).toUInt8

/-- Deal the elements into one bucket for each value of a digit, each bucket in
the order of the list. -/
def deal (digit : α → UInt8) (elements : List α) : Array (Array α) :=
  elements.foldl
    (fun buckets element => buckets.modify (digit element).toNat (·.push element))
    (Array.replicate 256 #[])

/-- One stable pass: the buckets of a digit, gathered in ascending order. -/
def pass (digit : α → UInt8) (elements : List α) : List α :=
  (deal digit elements).toList.flatMap Array.toList

/-- Sort by a key with one stable pass for each of its bytes. -/
def sortOn (key : α → UInt32) (elements : List α) : List α :=
  (List.range levels).foldl
    (fun sorted level => pass (fun element => byte (key element) level) sorted)
    elements

end Radix

namespace Handle

def digit (h : Handle) (level : Nat) : UInt8 := Radix.byte h.id level

/-- Sort by identifier; handles of one identifier keep their order. -/
def sortById (handles : List Handle) : List Handle := Radix.sortOn Handle.id handles

/-- Sort by identifier and, within one identifier, by generation. -/
def sort (handles : List Handle) : List Handle :=
  sortById (Radix.sortOn Handle.generation handles)

end Handle

end Broadphase
