import Mathlib
import Broadphase.Tree.Basic
import Broadphase.Proofs.BlockPool

/-!
The account of the blocks. A division takes a block from the pool, a merge gives one back and
clearing gives back all of them. A list of events balances from one state of the pool to
another if each of them can be carried out in its turn: a block taken was not in use, a block
given back was, and the count of blocks in use neither goes below zero nor beyond the range.
-/

namespace Broadphase

/-- The events, one after the other, lead from one state of the pool to another. -/
inductive Ledger : BlockPool → List TreeEvent → BlockPool → Prop where
  | nil (p : BlockPool) : Ledger p [] p
  | subdivided {p p' q : BlockPool} {slot depth block : Nat} {events : List TreeEvent} :
      p.alloc = (block, p') → ¬ p.InUse block → p'.live ≤ p'.highWater → Ledger p' events q →
        Ledger p (.subdivided slot depth block :: events) q
  | merged {p p' q : BlockPool} {slot depth block : Nat} {events : List TreeEvent} :
      p.free block = .ok p' → p.InUse block → 0 < p.live → Ledger p' events q →
        Ledger p (.merged slot depth block :: events) q
  | cleared {p p' q : BlockPool} {events : List TreeEvent} :
      (p' = if p.pooling then p.releaseAll else p.reset) → Ledger p' events q →
        Ledger p (.cleared p'.pooled :: events) q

namespace Ledger

variable {p p' q r : BlockPool} {slot depth block : Nat} {events more : List TreeEvent}

theorem append (h : Ledger p events q) (h' : Ledger q more r) : Ledger p (events ++ more) r := by
  induction h with
  | nil => exact h'
  | subdivided halloc hfresh hle _ ih => exact .subdivided halloc hfresh hle (ih h')
  | merged hfree huse hlive _ ih => exact .merged hfree huse hlive (ih h')
  | cleared hclear _ ih => exact .cleared hclear (ih h')

/-- What a sound pool hands out is entered. -/
theorem take (h : p.Sound) (halloc : p.alloc = (block, p')) (hrest : Ledger p' events q) :
    Ledger p (.subdivided slot depth block :: events) q := by
  have htakes := BlockPool.takes_alloc h
  rw [halloc] at htakes
  have hcount : p'.live + p'.retired.size = p'.highWater := htakes.sound.count
  exact .subdivided halloc htakes.free_before (by omega) hrest

/-- A block in use of a sound pool can be given back. -/
theorem give (h : p.Sound) (huse : p.InUse block) (hfree : p.free block = .ok p')
    (hrest : Ledger p' events q) : Ledger p (.merged slot depth block :: events) q :=
  .merged hfree huse (h.live_pos huse) hrest

/-- Without pooling the range ends with a block in use whatever happens. -/
theorem compact (h : Ledger p events q) (hsound : p.Sound) (hpooling : p.pooling = false)
    (hcompact : p.Compact) : q.Compact := by
  induction h with
  | nil => exact hcompact
  | @subdivided p p' _ _ _ block _ halloc _ _ _ ih =>
      have htakes := BlockPool.takes_alloc hsound
      have hcompact' := BlockPool.compact_alloc hsound hcompact
      rw [halloc] at htakes hcompact'
      exact ih htakes.sound (htakes.pooling.trans hpooling) hcompact'
  | @merged p p' _ _ _ block _ hfree huse _ _ ih =>
      obtain ⟨p'', hfree', hfrees⟩ := BlockPool.exists_free hsound huse
      obtain rfl := Except.ok.inj (hfree'.symm.trans hfree)
      exact ih hfrees.sound (hfrees.pooling.trans hpooling) (BlockPool.compact_free hpooling hfree)
  | @cleared p p' _ _ hclear _ ih =>
      rw [hpooling, if_neg Bool.false_ne_true] at hclear
      subst hclear
      exact ih (BlockPool.sound_empty _) hpooling (BlockPool.compact_empty _)

end Ledger

/-- Divisions of nodes above the greatest depth, and nothing else. -/
def Shallow (maxDepth : Nat) (events : List TreeEvent) : Prop :=
  ∀ event ∈ events, ∃ slot depth block, event = .subdivided slot depth block ∧ depth < maxDepth

namespace Shallow

variable {maxDepth : Nat} {events more : List TreeEvent}

theorem nil (maxDepth : Nat) : Shallow maxDepth [] := by
  intro event hevent
  cases hevent

theorem cons {slot depth block : Nat} (hdepth : depth < maxDepth) (h : Shallow maxDepth events) :
    Shallow maxDepth (.subdivided slot depth block :: events) := by
  intro event hevent
  rcases List.mem_cons.mp hevent with rfl | hevent
  · exact ⟨slot, depth, block, rfl, hdepth⟩
  · exact h event hevent

theorem append (h : Shallow maxDepth events) (h' : Shallow maxDepth more) :
    Shallow maxDepth (events ++ more) := by
  intro event hevent
  rcases List.mem_append.mp hevent with hevent | hevent
  · exact h event hevent
  · exact h' event hevent

end Shallow

end Broadphase
