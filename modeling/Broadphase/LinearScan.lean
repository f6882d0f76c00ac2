import Broadphase.Index
import Broadphase.SwapErase
import Std.Data.ExtTreeMap

/-!
The plainest index: a list of all entities that every query runs through. Its
answers are exact, which makes it the measure for the other indices and the
choice for small worlds.
-/

namespace Broadphase

/-- Entities in a row, with the position of each one. -/
structure LinearScan where
  deterministic : Bool
  entries : Array (Handle × Box)
  /-- The position of each entity in the row. -/
  slots : Std.ExtTreeMap Handle Nat

namespace LinearScan

def empty (deterministic : Bool) : LinearScan := ⟨deterministic, #[], ∅⟩

instance : Inhabited LinearScan := ⟨empty false⟩

/-- Replace the box of an entity, or put the entity at the end of the row. -/
def update (s : LinearScan) (e : Handle) (b : Box) : LinearScan :=
  match s.slots[e]? with
  | some slot => { s with entries := s.entries.modify slot fun entry => { entry with snd := b } }
  | none =>
      { s with
        entries := s.entries.push (e, b)
        slots := s.slots.insert e s.entries.size }

/-- Take an entity out of the row. The last entity fills its place. -/
def remove (s : LinearScan) (e : Handle) : LinearScan :=
  match s.slots[e]? with
  | none => s
  | some slot =>
      let entries := swapEraseAt s.entries slot
      let slots := s.slots.erase e
      { s with
        entries
        slots := match entries[slot]? with
          | some (moved, _) => slots.insert moved slot
          | none => slots }

def apply (s : LinearScan) : Change → LinearScan
  | .update e position bounds => s.update e (extent position bounds)
  | .remove e => s.remove e
  | .clear => empty s.deterministic

/-- Hand over the entities whose box meets the region, in the order of the
row. -/
def collect {σ : Type} [Sink σ] (s : LinearScan) (region : Region) (out : σ) : Except Halt σ :=
  s.entries.foldlM
    (fun out (e, b) => if region.meets b then Sink.put out e else .ok out)
    out

instance : SpatialIndex LinearScan where
  apply s change := (s.apply change, [])
  count s := s.entries.size
  contains s e := s.slots.contains e
  stats s := ⟨s.entries.size, 1, 0, 0⟩
  isDeterministic s := s.deterministic
  collect := collect

end LinearScan

end Broadphase
