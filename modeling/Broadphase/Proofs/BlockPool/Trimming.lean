import Mathlib
import Broadphase.Proofs.BlockPool.Calls

/-!
The range of a pool that does not keep retired blocks. It always ends with the last block that is
held, so a block that waits on the stack is a hole below a held one. When the last block is
retired, the holes right below it go with it, however many there are, one in each round of the
cutting; when another block is retired, there is no round. A block that is handed out again fills
a hole and leaves the end of the range where it is. Only retiring everything at once does not cut,
and a tree resets a pool of this kind instead.
-/

namespace Broadphase

namespace BlockPool

variable {p q : BlockPool} {block : Nat} {held : Finset Nat}

namespace Accounts

/-- The range ends with the last block that is held. -/
theorem highWater_eq (h : p.Accounts held) (hcompact : p.Compact) :
    p.highWater = held.sup (· + 1) := by
  apply le_antisymm
  · cases htop : p.highWater with
    | zero => exact Nat.zero_le _
    | succ top =>
        have hlast : top ∈ held :=
          (h.held_iff top).mpr ⟨htop ▸ Nat.lt_succ_self top, hcompact top htop⟩
        exact Finset.le_sup (f := (· + 1)) hlast
  · apply Finset.sup_le
    intro block hblock
    exact ((h.held_iff block).mp hblock).1

end Accounts

end BlockPool

end Broadphase
