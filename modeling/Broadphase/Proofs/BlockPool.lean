import Mathlib
import Broadphase.BlockPool
import Broadphase.Proofs.SwapErase

/-!
A pool splits the numbers below its high-water mark into those in use and those
retired, each retired one waiting once. Taking a block, retiring one and retiring
all of them keep this, with or without pooling.
-/

namespace Broadphase

namespace BlockPool

/-- A block that is handed out and not retired. -/
def InUse (p : BlockPool) (block : Nat) : Prop := block < p.highWater ∧ block ∉ p.retired

/-- The retired numbers are distinct and in range, and the rest is counted. -/
structure Sound (p : BlockPool) : Prop where
  nodup : p.retired.toList.Nodup
  in_range : ∀ block ∈ p.retired, block < p.highWater
  count : p.live + p.retired.size = p.highWater

theorem sound_empty (pooling : Bool) : (empty pooling).Sound where
  nodup := List.nodup_nil
  in_range := fun block h => absurd h (Array.not_mem_empty block)
  count := rfl

/-- What taking a block does: the block was not in use, and no other changes. -/
structure Takes (p : BlockPool) (block : Nat) (q : BlockPool) : Prop where
  sound : q.Sound
  pooling : q.pooling = p.pooling
  free_before : ¬ p.InUse block
  inUse_iff : ∀ other, q.InUse other ↔ p.InUse other ∨ other = block
  recycled_or_fresh : (block ∈ p.retired ∧ q.highWater = p.highWater) ∨
    (block = p.highWater ∧ q.highWater = p.highWater + 1)

/-- The block retired last is taken into use again. -/
theorem alloc_push {p : BlockPool} {rest : Array Nat} {block : Nat}
    (h : p.retired = rest.push block) :
    p.alloc = (block, { p with retired := rest, live := p.live + 1 }) := by
  rw [alloc, h, Array.back?_push, Array.pop_push]

/-- Without retired blocks a new one is made. -/
theorem alloc_empty {p : BlockPool} (h : p.retired = #[]) :
    p.alloc = (p.highWater, { p with highWater := p.highWater + 1, live := p.live + 1 }) := by
  rw [alloc, h]
  rfl

private theorem takes_retired {p : BlockPool} (h : p.Sound) {rest : Array Nat} {block : Nat}
    (hrest : p.retired = rest.push block) :
    p.Takes block { p with retired := rest, live := p.live + 1 } := by
  have hnodup := h.nodup
  have hrange := h.in_range
  have hcount := h.count
  rw [hrest, Array.toList_push, List.nodup_append] at hnodup
  rw [hrest] at hrange
  rw [hrest, Array.size_push] at hcount
  have hfresh : block ∉ rest := fun hmem =>
    hnodup.2.2 block (Array.mem_toList_iff.mpr hmem) block (List.mem_singleton.mpr rfl) rfl
  have hlt : block < p.highWater := hrange block (Array.mem_push.mpr (Or.inr rfl))
  have hmem : block ∈ p.retired := hrest ▸ Array.mem_push.mpr (Or.inr rfl)
  refine ⟨⟨hnodup.1, ?_, ?_⟩, rfl, fun huse => huse.2 hmem, ?_, Or.inl ⟨hmem, rfl⟩⟩
  · intro other hother
    exact hrange other (Array.mem_push.mpr (Or.inl hother))
  · change p.live + 1 + rest.size = p.highWater
    omega
  · intro other
    change other < p.highWater ∧ other ∉ rest ↔
      (other < p.highWater ∧ other ∉ p.retired) ∨ other = block
    rw [hrest, Array.mem_push]
    constructor
    · rintro ⟨hother, hnot⟩
      by_cases heq : other = block
      · exact Or.inr heq
      · exact Or.inl ⟨hother, by tauto⟩
    · rintro (⟨hother, hnot⟩ | rfl)
      · exact ⟨hother, fun hmem => hnot (Or.inl hmem)⟩
      · exact ⟨hlt, hfresh⟩

private theorem takes_fresh {p : BlockPool} (h : p.Sound) :
    p.Takes p.highWater { p with highWater := p.highWater + 1, live := p.live + 1 } := by
  have hcount := h.count
  refine ⟨⟨h.nodup, fun other hother => Nat.lt_succ_of_lt (h.in_range other hother), ?_⟩, rfl,
    fun huse => Nat.lt_irrefl _ huse.1, ?_, Or.inr ⟨rfl, rfl⟩⟩
  · change p.live + 1 + p.retired.size = p.highWater + 1
    omega
  · intro other
    change other < p.highWater + 1 ∧ other ∉ p.retired ↔
      (other < p.highWater ∧ other ∉ p.retired) ∨ other = p.highWater
    constructor
    · rintro ⟨hlt, hnot⟩
      rcases Nat.lt_succ_iff_lt_or_eq.mp hlt with hlt | heq
      · exact Or.inl ⟨hlt, hnot⟩
      · exact Or.inr heq
    · rintro (⟨hlt, hnot⟩ | rfl)
      · exact ⟨Nat.lt_succ_of_lt hlt, hnot⟩
      · exact ⟨Nat.lt_succ_self _, fun hmem => Nat.lt_irrefl _ (h.in_range _ hmem)⟩

theorem takes_alloc {p : BlockPool} (h : p.Sound) : p.Takes p.alloc.1 p.alloc.2 := by
  by_cases hempty : p.retired = #[]
  · rw [alloc_empty hempty]
    exact takes_fresh h
  · obtain ⟨rest, block, hrest⟩ := Array.exists_push_of_ne_empty hempty
    rw [alloc_push hrest]
    exact takes_retired h hrest

/-- What is cut off at the top was retired, and nothing else is lost. -/
structure Trims (top : Nat) (retired : Array Nat) (cut : Nat × Array Nat) : Prop where
  le : cut.1 ≤ top
  nodup : cut.2.toList.Nodup
  in_range : ∀ block ∈ cut.2, block < cut.1
  count : cut.1 + retired.size = top + cut.2.size
  mem_iff : ∀ block, block < cut.1 → (block ∈ cut.2 ↔ block ∈ retired)
  cut_retired : ∀ block, cut.1 ≤ block → block < top → block ∈ retired

theorem trims_trim (top : Nat) (retired : Array Nat) (hnodup : retired.toList.Nodup)
    (hrange : ∀ block ∈ retired, block < top) : Trims top retired (trim top retired) := by
  induction top generalizing retired with
  | zero =>
      exact ⟨le_rfl, hnodup, hrange, by simp [trim], fun _ _ => Iff.rfl,
        fun block _ hlt => absurd hlt (Nat.not_lt_zero block)⟩
  | succ top ih =>
      unfold trim
      split
      · rename_i hcontains
        have hmem : top ∈ retired := Array.contains_iff_mem.mp hcontains
        obtain ⟨hnodup', hiff⟩ := swapErase_spec (x := top) hnodup
        have hsize := size_swapErase hmem
        have hcut := ih (swapErase retired top) hnodup' fun block hblock => by
          have hlt := hrange block ((hiff block).mp hblock).1
          have hne := ((hiff block).mp hblock).2
          omega
        have hcount := hcut.count
        refine ⟨hcut.le.trans (Nat.le_succ top), hcut.nodup, hcut.in_range, by omega,
          fun block hlt => ?_, fun block hle hlt => ?_⟩
        · have hne : block ≠ top := by
            have hle := hcut.le
            omega
          rw [hcut.mem_iff block hlt, hiff, and_iff_left hne]
        · rcases Nat.lt_succ_iff_lt_or_eq.mp hlt with hlt | rfl
          · exact ((hiff block).mp (hcut.cut_retired block hle hlt)).1
          · exact hmem
      · exact ⟨le_rfl, hnodup, hrange, rfl, fun _ _ => Iff.rfl,
          fun block hle hlt => absurd hlt (not_lt.mpr hle)⟩

theorem length_le_of_nodup {l : List Nat} {n : Nat} (hnodup : l.Nodup) (hlt : ∀ i ∈ l, i < n) :
    l.length ≤ n := by
  have hsub : l.Subperm (List.range n) :=
    hnodup.subperm fun i hi => List.mem_range.mpr (hlt i hi)
  simpa using hsub.length_le

/-- What retiring a block does: only that block goes out of use, and without
pooling the range may shrink to the blocks that are still needed. -/
structure Frees (p : BlockPool) (block : Nat) (q : BlockPool) : Prop where
  sound : q.Sound
  pooling : q.pooling = p.pooling
  inUse_iff : ∀ other, q.InUse other ↔ p.InUse other ∧ other ≠ block
  highWater_le : q.highWater ≤ p.highWater
  highWater_eq : p.pooling = true → q.highWater = p.highWater

/-- The retired blocks and one in use are distinct and in range. -/
theorem Sound.push_retired {p : BlockPool} {block : Nat} (h : p.Sound) (huse : p.InUse block) :
    (p.retired.push block).toList.Nodup ∧ ∀ other ∈ p.retired.push block, other < p.highWater := by
  obtain ⟨hlt, hnot⟩ := huse
  constructor
  · rw [Array.toList_push]
    refine List.nodup_append.mpr ⟨h.nodup, List.nodup_singleton block, ?_⟩
    intro a ha b hb
    rintro rfl
    exact hnot (Array.mem_toList_iff.mp (List.mem_singleton.mp hb ▸ ha))
  · intro other hother
    rcases Array.mem_push.mp hother with hmem | rfl
    · exact h.in_range other hmem
    · exact hlt

/-- A block in use is counted. -/
theorem Sound.live_pos {p : BlockPool} {block : Nat} (h : p.Sound) (huse : p.InUse block) :
    0 < p.live := by
  obtain ⟨hnodup, hrange⟩ := h.push_retired huse
  have hlength := length_le_of_nodup hnodup fun i hi => hrange i (Array.mem_toList_iff.mp hi)
  rw [Array.length_toList, Array.size_push] at hlength
  have hcount := h.count
  omega

/-- Only a block in use is accepted. -/
theorem inUse_of_free {p q : BlockPool} {block : Nat} (hfree : p.free block = .ok q) :
    p.InUse block := by
  unfold free at hfree
  split at hfree
  · cases hfree
  · rename_i hout
    split at hfree
    · cases hfree
    · rename_i hpooled
      exact ⟨not_le.mp hout, fun hmem => hpooled (Array.contains_iff_mem.mpr hmem)⟩

theorem free_of_pooling {p : BlockPool} {block : Nat} (hpooling : p.pooling = true)
    (huse : p.InUse block) :
    p.free block = .ok { p with retired := p.retired.push block, live := p.live - 1 } := by
  have hpooled : ¬ p.isPooled block = true := fun hmem => huse.2 (Array.contains_iff_mem.mp hmem)
  rw [free, if_neg (not_le.mpr huse.1), if_neg hpooled, if_pos hpooling]

theorem free_of_not_pooling {p : BlockPool} {block : Nat} (hpooling : p.pooling = false)
    (huse : p.InUse block) :
    p.free block = .ok { p with
      retired := (trim p.highWater (p.retired.push block)).2
      highWater := (trim p.highWater (p.retired.push block)).1
      live := p.live - 1 } := by
  have hpooled : ¬ p.isPooled block = true := fun hmem => huse.2 (Array.contains_iff_mem.mp hmem)
  have hforgets : ¬ p.pooling = true := ne_true_of_eq_false hpooling
  rw [free, if_neg (not_le.mpr huse.1), if_neg hpooled, if_neg hforgets]

/-- The block waits with the others. -/
private theorem frees_push {p : BlockPool} {block : Nat} (h : p.Sound) (huse : p.InUse block) :
    p.Frees block { p with retired := p.retired.push block, live := p.live - 1 } := by
  obtain ⟨hnodup, hrange⟩ := h.push_retired huse
  have hlive := h.live_pos huse
  have hcount := h.count
  refine ⟨⟨hnodup, hrange, ?_⟩, rfl, ?_, le_rfl, fun _ => rfl⟩
  · change p.live - 1 + (p.retired.push block).size = p.highWater
    rw [Array.size_push]
    omega
  · intro other
    change other < p.highWater ∧ other ∉ p.retired.push block ↔
      (other < p.highWater ∧ other ∉ p.retired) ∧ other ≠ block
    rw [Array.mem_push]
    tauto

/-- The block and the others that wait at the top of the range are cut off. -/
private theorem frees_trim {p : BlockPool} {block : Nat} (h : p.Sound)
    (hpooling : p.pooling = false) (huse : p.InUse block) :
    p.Frees block { p with
      retired := (trim p.highWater (p.retired.push block)).2
      highWater := (trim p.highWater (p.retired.push block)).1
      live := p.live - 1 } := by
  obtain ⟨hnodup, hrange⟩ := h.push_retired huse
  have hlive := h.live_pos huse
  have hcount := h.count
  have hcut := trims_trim p.highWater (p.retired.push block) hnodup hrange
  refine ⟨⟨hcut.nodup, hcut.in_range, ?_⟩, rfl, ?_, hcut.le,
    fun hpool => absurd (hpooling.symm.trans hpool) Bool.false_ne_true⟩
  · have hcutcount := hcut.count
    rw [Array.size_push] at hcutcount
    change p.live - 1 + (trim p.highWater (p.retired.push block)).2.size =
      (trim p.highWater (p.retired.push block)).1
    omega
  · intro other
    change other < (trim p.highWater (p.retired.push block)).1 ∧
      other ∉ (trim p.highWater (p.retired.push block)).2 ↔
      (other < p.highWater ∧ other ∉ p.retired) ∧ other ≠ block
    constructor
    · rintro ⟨hother, hout⟩
      rw [hcut.mem_iff other hother, Array.mem_push] at hout
      exact ⟨⟨hother.trans_le hcut.le, fun hmem => hout (Or.inl hmem)⟩,
        fun heq => hout (Or.inr heq)⟩
    · rintro ⟨⟨hother, hout⟩, hne⟩
      have hretired : other ∉ p.retired.push block := by
        rw [Array.mem_push]
        tauto
      have hkept : other < (trim p.highWater (p.retired.push block)).1 := by
        by_contra hge
        exact hretired (hcut.cut_retired other (not_lt.mp hge) hother)
      exact ⟨hkept, fun hmem => hretired ((hcut.mem_iff other hkept).mp hmem)⟩

theorem exists_free {p : BlockPool} {block : Nat} (h : p.Sound) (huse : p.InUse block) :
    ∃ q, p.free block = .ok q ∧ p.Frees block q := by
  cases hpooling : p.pooling with
  | true => exact ⟨_, free_of_pooling hpooling huse, frees_push h huse⟩
  | false => exact ⟨_, free_of_not_pooling hpooling huse, frees_trim h hpooling huse⟩

/-- No retired block is at the top of the range, so the range ends with a block in use. -/
def Compact (p : BlockPool) : Prop := ∀ top, p.highWater = top + 1 → top ∉ p.retired

theorem compact_empty (pooling : Bool) : (empty pooling).Compact := by
  intro top htop
  cases htop

theorem highWater_eq_zero {p : BlockPool} (hcompact : p.Compact)
    (hfree : ∀ block, ¬ p.InUse block) : p.highWater = 0 := by
  cases htop : p.highWater with
  | zero => rfl
  | succ top => exact absurd ⟨htop ▸ Nat.lt_succ_self top, hcompact top htop⟩ (hfree top)

theorem compact_alloc {p : BlockPool} (hsound : p.Sound) (hcompact : p.Compact) :
    p.alloc.2.Compact := by
  by_cases hempty : p.retired = #[]
  · rw [alloc_empty hempty]
    intro top htop hmem
    have hlt := hsound.in_range top hmem
    have heq : p.highWater = top := Nat.succ.inj htop
    omega
  · obtain ⟨rest, block, hrest⟩ := Array.exists_push_of_ne_empty hempty
    rw [alloc_push hrest]
    intro top htop hmem
    exact hcompact top htop (hrest ▸ Array.mem_push.mpr (Or.inl hmem))

theorem trim_top (top : Nat) (retired : Array Nat) :
    ∀ last, (trim top retired).1 = last + 1 → last ∉ (trim top retired).2 := by
  induction top generalizing retired with
  | zero =>
      intro last hlast
      cases hlast
  | succ top ih =>
      unfold trim
      split
      · exact ih (swapErase retired top)
      · rename_i hnot
        intro last hlast hmem
        obtain rfl : top = last := Nat.succ.inj hlast
        exact hnot (Array.contains_iff_mem.mpr hmem)

/-- A pool that does not keep retired blocks cuts them off at the top. -/
theorem compact_free {p q : BlockPool} {block : Nat} (hpooling : p.pooling = false)
    (hfree : p.free block = .ok q) : q.Compact := by
  rw [free_of_not_pooling hpooling (inUse_of_free hfree)] at hfree
  obtain rfl := Except.ok.inj hfree
  exact trim_top p.highWater (p.retired.push block)

/-- After retiring every block none is in use, and the range is as before. -/
theorem sound_releaseAll (p : BlockPool) :
    p.releaseAll.Sound ∧ p.releaseAll.highWater = p.highWater ∧
      ∀ block, ¬ p.releaseAll.InUse block := by
  have hmem (block : Nat) : block ∈ (Array.range p.highWater).reverse ↔ block < p.highWater := by
    rw [Array.mem_reverse, Array.mem_range]
  refine ⟨⟨?_, fun block hblock => (hmem block).mp hblock, ?_⟩, rfl, ?_⟩
  · change (Array.range p.highWater).reverse.toList.Nodup
    rw [Array.toList_reverse, List.nodup_reverse, Array.toList_range]
    exact List.nodup_range
  · change 0 + (Array.range p.highWater).reverse.size = p.highWater
    rw [Array.size_reverse, Array.size_range, Nat.zero_add]
  · intro block huse
    exact huse.2 ((hmem block).mpr huse.1)

/-- A pool with more numbers in its range. They are retired and wait below the others, the
lowest one to be handed out first. -/
def withSpare (p : BlockPool) (spare : Nat) : BlockPool :=
  { p with
    retired := (List.range' p.highWater spare).reverse.toArray ++ p.retired
    highWater := p.highWater + spare }

theorem withSpare_zero (p : BlockPool) : p.withSpare 0 = p := by simp [withSpare]

theorem inUse_withSpare {p : BlockPool} {spare block : Nat} :
    (p.withSpare spare).InUse block ↔ p.InUse block := by
  simp only [InUse, withSpare, Array.mem_append, List.mem_toArray, List.mem_reverse,
    List.mem_range'_1, not_or]
  constructor
  · rintro ⟨hlt, hspare, hretired⟩
    exact ⟨by omega, hretired⟩
  · rintro ⟨hlt, hretired⟩
    exact ⟨by omega, by omega, hretired⟩

/-- The second pool has spare numbers to hand out again where the first makes new ones. Only
a pool that keeps retired numbers can have them. -/
def Ahead (p q : BlockPool) : Prop :=
  ∃ spare, q = p.withSpare spare ∧ (p.pooling = false → spare = 0)

theorem Ahead.refl (p : BlockPool) : Ahead p p := ⟨0, (withSpare_zero p).symm, fun _ => rfl⟩

/-- A pool whose numbers were all retired at once is a new one with spare numbers. -/
theorem ahead_releaseAll {p : BlockPool} (hpooling : p.pooling = true) :
    Ahead (empty true) p.releaseAll := by
  refine ⟨p.highWater, ?_, fun hnot => absurd hnot.symm Bool.false_ne_true⟩
  rw [releaseAll, withSpare, empty, hpooling, Array.append_empty, Nat.zero_add,
    ← List.range_eq_range', List.reverse_toArray, Array.toList_range]

/-- Both pools hand out the same number. -/
theorem Ahead.alloc {p q : BlockPool} (h : Ahead p q) :
    q.alloc.1 = p.alloc.1 ∧ Ahead p.alloc.2 q.alloc.2 := by
  obtain ⟨spare, rfl, hspare⟩ := h
  by_cases hempty : p.retired = #[]
  · cases spare with
    | zero =>
        rw [withSpare_zero]
        exact ⟨rfl, .refl _⟩
    | succ spare =>
        -- the lowest spare number is the one that the first pool makes
        have hretired : (p.withSpare (spare + 1)).retired =
            (List.range' (p.highWater + 1) spare).reverse.toArray.push p.highWater := by
          simp [withSpare, hempty, List.range'_succ]
        rw [alloc_empty hempty, alloc_push hretired]
        refine ⟨rfl, spare, ?_, fun hpooling => absurd (hspare hpooling) (Nat.succ_ne_zero spare)⟩
        simp only [withSpare, hempty, Array.append_empty, mk.injEq, true_and, and_true]
        omega
  · obtain ⟨rest, block, hrest⟩ := Array.exists_push_of_ne_empty hempty
    have hretired : (p.withSpare spare).retired =
        ((List.range' p.highWater spare).reverse.toArray ++ rest).push block := by
      rw [withSpare, hrest, Array.append_push]
    rw [alloc_push hrest, alloc_push hretired]
    exact ⟨rfl, spare, rfl, hspare⟩

/-- Both pools take a number back alike. -/
theorem Ahead.free {p q p' q' : BlockPool} {block : Nat} (h : Ahead p q) (huse : p.InUse block)
    (hfree : p.free block = .ok p') (hfree' : q.free block = .ok q') : Ahead p' q' := by
  obtain ⟨spare, rfl, hspare⟩ := h
  cases hpooling : p.pooling with
  | false =>
      obtain rfl := hspare hpooling
      rw [withSpare_zero] at hfree'
      obtain rfl := Except.ok.inj (hfree.symm.trans hfree')
      exact .refl p'
  | true =>
      have hkeeps : (p.withSpare spare).pooling = true := hpooling
      rw [free_of_pooling hpooling huse] at hfree
      rw [free_of_pooling hkeeps (inUse_withSpare.mpr huse)] at hfree'
      obtain rfl := Except.ok.inj hfree
      obtain rfl := Except.ok.inj hfree'
      refine ⟨spare, ?_, fun hnot => absurd (hnot.symm.trans hpooling) Bool.false_ne_true⟩
      rw [withSpare, withSpare, Array.push_append]

end BlockPool

end Broadphase
