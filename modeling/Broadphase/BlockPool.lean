import Broadphase.SwapErase

/-!
Numbers for blocks of tree nodes. Retired numbers wait on a stack and are handed
out again before a new number is made. A pool that does not keep retired blocks
forgets those at the top of its range at once; a retired number below a live one
has to wait on the stack until everything above it is retired too.
-/

namespace Broadphase

/-- The state of a pool of block numbers. -/
structure BlockPool where
  /-- Retired numbers, the next one to hand out at the end. -/
  retired : Array Nat
  /-- One more than the highest number in the pool's range. -/
  highWater : Nat
  live : Nat
  /-- Whether retired numbers at the top of the range are kept. -/
  pooling : Bool
  deriving DecidableEq, Repr

namespace BlockPool

/-- Ways to retire a block that is not in use. -/
inductive Misuse where
  | unallocated (block : Nat)
  | doubleFree (block : Nat)
  deriving DecidableEq, Repr

def Misuse.message : Misuse → String
  | .unallocated block => s!"freeing an unallocated block: {block}"
  | .doubleFree block => s!"double free of block {block}"

def empty (pooling : Bool) : BlockPool := ⟨#[], 0, 0, pooling⟩

instance : Inhabited BlockPool := ⟨empty true⟩

def isEmpty (p : BlockPool) : Bool := p.live = 0

def pooled (p : BlockPool) : Nat := p.retired.size

def isPooled (p : BlockPool) (block : Nat) : Bool := p.retired.contains block

/-- Take a block into use: the one retired last, or a new one. -/
def alloc (p : BlockPool) : Nat × BlockPool :=
  match p.retired.back? with
  | some block => (block, { p with retired := p.retired.pop, live := p.live + 1 })
  | none => (p.highWater, { p with highWater := p.highWater + 1, live := p.live + 1 })

/-- Lower the top of a range of numbers past the retired ones there, taking
those off the stack. -/
def trim : (highWater : Nat) → (retired : Array Nat) → Nat × Array Nat
  | 0, retired => (0, retired)
  | top + 1, retired =>
      if retired.contains top then trim top (swapErase retired top) else (top + 1, retired)

/-- Retire a block. Only a block in use can be retired. -/
def free (p : BlockPool) (block : Nat) : Except Misuse BlockPool :=
  if p.highWater ≤ block then .error (.unallocated block)
  else if p.isPooled block then .error (.doubleFree block)
  else
    let retired := p.retired.push block
    let live := p.live - 1
    if p.pooling then .ok { p with retired, live }
    else
      let (highWater, retired) := trim p.highWater retired
      .ok { p with retired, highWater, live }

/-- Retire every block at once. Lower numbers are handed out first afterwards. -/
def releaseAll (p : BlockPool) : BlockPool :=
  { p with retired := (Array.range p.highWater).reverse, live := 0 }

/-- Forget every block, in use or retired. -/
def reset (p : BlockPool) : BlockPool := empty p.pooling

end BlockPool

end Broadphase
