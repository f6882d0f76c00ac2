import Mathlib
import Broadphase.Proofs.BlockPool

/-!
A pool under any sequence of calls. Callers may retire any number, one that was never handed
out or one that was retired before among them, and may retire everything at any time, whether
the pool keeps retired blocks or not. Which blocks the callers hold is told by the answers they
got: a block is held from the call that hands it out until a call that retires it. The pool's
own account, which is its stack, its range and its count, always agrees with that.
-/

namespace Broadphase

namespace BlockPool

inductive Call where
  | alloc
  | free (block : Nat)
  | releaseAll
  | reset
  deriving DecidableEq, Repr

/-- The pool after a call. A call that is refused changes nothing. -/
def call (p : BlockPool) : Call → BlockPool
  | .alloc => p.alloc.2
  | .free block =>
      match p.free block with
      | .ok q => q
      | .error _ => p
  | .releaseAll => p.releaseAll
  | .reset => p.reset

/-- The blocks that callers hold after a call, by its answer. -/
def heldAfter (p : BlockPool) (held : Finset Nat) : Call → Finset Nat
  | .alloc => insert p.alloc.1 held
  | .free block =>
      match p.free block with
      | .ok _ => held.erase block
      | .error _ => held
  | .releaseAll => ∅
  | .reset => ∅

/-- A new pool after a sequence of calls, and the blocks that callers hold then. -/
def afterCalls (pooling : Bool) (calls : List Call) : BlockPool × Finset Nat :=
  calls.foldl (fun state c => (state.1.call c, state.1.heldAfter state.2 c)) (empty pooling, ∅)

variable {p q : BlockPool} {block : Nat} {held : Finset Nat}

theorem isPooled_iff : p.isPooled block = true ↔ block ∈ p.retired := Array.contains_iff_mem

/-- A block out of range is refused as such, whatever is on the stack. -/
theorem free_eq_unallocated : p.free block = .error (.unallocated block) ↔
    p.highWater ≤ block := by
  constructor
  · intro h
    by_contra hlt
    rw [free, if_neg hlt] at h
    split_ifs at h
    cases h
  · intro hle
    rw [free, if_pos hle]

theorem free_eq_doubleFree : p.free block = .error (.doubleFree block) ↔
    block < p.highWater ∧ block ∈ p.retired := by
  constructor
  · intro h
    rw [free] at h
    split_ifs at h with hle hpooled
    · cases h
    · exact ⟨not_le.mp hle, isPooled_iff.mp hpooled⟩
  · rintro ⟨hlt, hmem⟩
    rw [free, if_neg (not_le.mpr hlt), if_pos (isPooled_iff.mpr hmem)]

/-- Exactly the blocks in use can be retired. -/
theorem free_ok_iff_inUse (h : p.Sound) : (∃ q, p.free block = .ok q) ↔ p.InUse block := by
  constructor
  · rintro ⟨q, hfree⟩
    exact inUse_of_free hfree
  · intro huse
    obtain ⟨q, hfree, -⟩ := exists_free h huse
    exact ⟨q, hfree⟩

theorem frees_of_free (h : p.Sound) (hfree : p.free block = .ok q) :
    p.InUse block ∧ p.Frees block q := by
  have huse := inUse_of_free hfree
  obtain ⟨q', hfree', hfrees⟩ := exists_free h huse
  obtain rfl := Except.ok.inj (hfree.symm.trans hfree')
  exact ⟨huse, hfrees⟩

/-- The account of the pool and what callers hold agree. -/
structure Accounts (p : BlockPool) (held : Finset Nat) : Prop where
  sound : p.Sound
  held_iff : ∀ block, block ∈ held ↔ p.InUse block

namespace Accounts

theorem of_unused (hsound : p.Sound) (hfree : ∀ block, ¬ p.InUse block) : p.Accounts ∅ :=
  ⟨hsound, fun block => iff_of_false (Finset.notMem_empty block) (hfree block)⟩

theorem empty (pooling : Bool) : (BlockPool.empty pooling).Accounts ∅ :=
  of_unused (sound_empty pooling) fun _ huse => Nat.not_lt_zero _ huse.1

theorem alloc (h : p.Accounts held) : p.alloc.2.Accounts (insert p.alloc.1 held) := by
  have htakes := takes_alloc h.sound
  refine ⟨htakes.sound, ?_⟩
  intro block
  rw [Finset.mem_insert, h.held_iff, htakes.inUse_iff, or_comm]

theorem free (h : p.Accounts held) (hfree : p.free block = .ok q) :
    q.Accounts (held.erase block) := by
  obtain ⟨-, hfrees⟩ := frees_of_free h.sound hfree
  refine ⟨hfrees.sound, ?_⟩
  intro other
  rw [Finset.mem_erase, h.held_iff, hfrees.inUse_iff, and_comm]

/-- Every call keeps the account, a refused one because it changes nothing. -/
theorem call (h : p.Accounts held) (c : Call) : (p.call c).Accounts (p.heldAfter held c) := by
  cases c with
  | alloc => exact h.alloc
  | free block =>
      cases hfree : p.free block with
      | ok q =>
          simp only [BlockPool.call, heldAfter, hfree]
          exact h.free hfree
      | error misuse =>
          simp only [BlockPool.call, heldAfter, hfree]
          exact h
  | releaseAll =>
      obtain ⟨hsound, -, hfree⟩ := sound_releaseAll p
      exact of_unused hsound hfree
  | reset => exact empty p.pooling

theorem calls (h : p.Accounts held) (cs : List Call) :
    let state := cs.foldl
      (fun state c => (state.1.call c, state.1.heldAfter state.2 c)) (p, held)
    state.1.Accounts state.2 := by
  induction cs generalizing p held with
  | nil => exact h
  | cons c cs ih => exact ih (h.call c)

theorem eq_sdiff (h : p.Accounts held) :
    held = Finset.range p.highWater \ p.retired.toList.toFinset := by
  ext block
  rw [h.held_iff, InUse, Finset.mem_sdiff, Finset.mem_range, List.mem_toFinset,
    Array.mem_toList_iff]

/-- The count is that of the blocks held. -/
theorem card_eq (h : p.Accounts held) : held.card = p.live := by
  have hsub : p.retired.toList.toFinset ⊆ Finset.range p.highWater := by
    intro block hblock
    rw [List.mem_toFinset, Array.mem_toList_iff] at hblock
    exact Finset.mem_range.mpr (h.sound.in_range block hblock)
  have hretired : p.retired.toList.toFinset.card = p.retired.size := by
    rw [List.toFinset_card_of_nodup h.sound.nodup, Array.length_toList]
  have hcount := h.sound.count
  rw [h.eq_sdiff, Finset.card_sdiff_of_subset hsub, Finset.card_range, hretired]
  omega

end Accounts

/-- What callers can rely on in a state of the pool in which they hold some blocks. -/
structure Reliable (p : BlockPool) (held : Finset Nat) : Prop where
  nodup : p.retired.toList.Nodup
  in_range : ∀ block ∈ p.retired, block < p.highWater
  count_eq : p.live + p.pooled = p.highWater
  /-- The blocks held are those in range that do not wait on the stack, and they are counted. -/
  held_iff : ∀ block, block ∈ held ↔ block < p.highWater ∧ p.isPooled block = false
  live_eq : p.live = held.card
  /-- No block is handed out while it is held. -/
  alloc_fresh : p.alloc.1 ∉ held
  alloc_inUse : ∀ other, p.alloc.2.InUse other ↔ other ∈ insert p.alloc.1 held
  /-- The range grows only if no block waits for reuse. -/
  alloc_highWater : p.alloc.2.highWater = if p.pooled = 0 then p.highWater + 1 else p.highWater
  /-- Exactly the blocks held can be retired. -/
  free_ok_iff : ∀ block, (∃ q, p.free block = .ok q) ↔ block ∈ held
  free_inUse : ∀ block q, p.free block = .ok q → q.live + 1 = p.live ∧
    ∀ other, q.InUse other ↔ other ∈ held.erase block
  unallocated_iff : ∀ block, p.free block = .error (.unallocated block) ↔ p.highWater ≤ block
  doubleFree_iff : ∀ block, p.free block = .error (.doubleFree block) ↔
    block < p.highWater ∧ p.isPooled block = true
  refused : ∀ block misuse, p.free block = .error misuse → p.call (.free block) = p

/-- The range grows by a new block or stays, as the stack is empty or not. -/
theorem highWater_alloc (p : BlockPool) :
    p.alloc.2.highWater = if p.pooled = 0 then p.highWater + 1 else p.highWater := by
  by_cases hempty : p.retired = #[]
  · have hnone : p.pooled = 0 := Array.size_eq_zero_iff.mpr hempty
    rw [alloc_empty hempty, if_pos hnone]
  · have hsome : p.pooled ≠ 0 := fun hnone => hempty (Array.size_eq_zero_iff.mp hnone)
    obtain ⟨rest, block, hrest⟩ := Array.exists_push_of_ne_empty hempty
    rw [alloc_push hrest, if_neg hsome]

theorem Accounts.reliable (h : p.Accounts held) : p.Reliable held where
  nodup := h.sound.nodup
  in_range := h.sound.in_range
  count_eq := h.sound.count
  held_iff block := by
    rw [h.held_iff, InUse, ← isPooled_iff, Bool.not_eq_true]
  live_eq := h.card_eq.symm
  alloc_fresh hheld := (takes_alloc h.sound).free_before ((h.held_iff _).mp hheld)
  alloc_inUse other := (h.alloc.held_iff other).symm
  alloc_highWater := highWater_alloc p
  free_ok_iff block := by
    rw [free_ok_iff_inUse h.sound, h.held_iff]
  free_inUse block q hfree := by
    have hafter := h.free hfree
    have hheld : block ∈ held := (h.held_iff block).mpr (frees_of_free h.sound hfree).1
    refine ⟨?_, fun other => (hafter.held_iff other).symm⟩
    rw [← hafter.card_eq, ← h.card_eq, Finset.card_erase_add_one hheld]
  unallocated_iff _ := free_eq_unallocated
  doubleFree_iff _ := by rw [free_eq_doubleFree, isPooled_iff]
  refused block misuse hfree := by
    simp only [BlockPool.call, hfree]

/-- After any calls of a new pool, with pooling or without, the pool keeps its account: no
block is handed out twice, none is lost, and exactly the blocks that are held can be retired. -/
theorem reliable_of_calls (pooling : Bool) (calls : List Call) :
    (afterCalls pooling calls).1.Reliable (afterCalls pooling calls).2 :=
  ((Accounts.empty pooling).calls calls).reliable

/-- Of three blocks the middle one is retired, once more in vain, and so is one that was never
made. A pool that keeps none gives up both upper blocks when the top one is retired. -/
example :
    let state := afterCalls false [.alloc, .alloc, .alloc, .free 1, .free 1, .free 7, .free 2]
    state.1 = ⟨#[], 1, 1, false⟩ ∧ state.2 = {0} := by
  decide +kernel

end BlockPool

end Broadphase
