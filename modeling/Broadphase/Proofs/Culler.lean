import Mathlib
import Broadphase.Culler
import Broadphase.Proofs.Forms
import Broadphase.Proofs.Handle.Ties

/-!
Culling from frame to frame. What a call shows is the answer of the index, whether it was
written into the buffer or taken without a limit, since the forms of a query agree. A buffer
grows exactly to the least power of two that holds the answer, so between two answers that do
not fit the exponent grows, and there are no more of them than the exponent of the largest
answer and one.

An answer in a buffer is counted by a 32-bit integer. An answer of `2 ^ 31` handles or more is
therefore taken without a limit even where there are slots for it. What is shown does not
depend on that, but only smaller answers leave a buffer alone that has room for them, and each
answer that is not counted adds an overflow of its own.
-/

namespace Broadphase

open SpatialIndex
open Handle (DigitSort)

/-- An index of any kind as a query meets it: a grid goes a given way through its cells. -/
structure WalkedIndex where
  index : AnyIndex
  walk : Walk

namespace WalkedIndex

instance : SpatialIndex WalkedIndex where
  apply w change :=
    let (index, reports) := SpatialIndex.apply w.index change
    (⟨index, w.walk⟩, reports)
  count w := SpatialIndex.count w.index
  contains w := SpatialIndex.contains w.index
  stats w := SpatialIndex.stats w.index
  isDeterministic w := SpatialIndex.isDeterministic w.index
  collect w region out :=
    match w.index with
    | .grid g => SpatialIndex.collect (⟨g, w.walk⟩ : WalkedGrid) region out
    | index => SpatialIndex.collect index region out

/-- The index came about from a new one by some changes. -/
def Reached (w : WalkedIndex) : Prop :=
  ∃ (index₀ : AnyIndex) (changes : List Change), index₀.Created ∧ run index₀ changes = w.index

/-- How far the way through a grid is seen in an answer: in its order, and only where a sort by
digits leaves that open. -/
structure WayUnseen (w : WalkedIndex) (region : Region) : Prop where
  perm : ∀ s : DigitSort, (query w region s.sort).Perm (query w.index region s.sort)
  eq_of_not_grid : (∀ g, w.index ≠ .grid g) →
    ∀ s : DigitSort, query w region s.sort = query w.index region s.sort
  alike_of_sorted : isDeterministic w = true → SortedAlike w w.index region

variable {w : WalkedIndex} {region : Region}

theorem wayUnseen_of_perm {es es' : List Handle}
    (h : HandsOver (fun _ _ out => collect w region out) es)
    (h' : HandsOver (fun _ _ out => collect w.index region out) es') (hperm : es.Perm es')
    (heq : (∀ g, w.index ≠ .grid g) →
      ∀ s : DigitSort, query w region s.sort = query w.index region s.sort) :
    w.WayUnseen region :=
  ⟨fun s => query_perm_of_perm h h' s.perm hperm, heq, fun hsorted =>
    sortedAlike_of_perm h h' hsorted hsorted hperm⟩

/-- No query fails, along whatever way. -/
theorem exists_answer (h : w.Reached) (region : Region) :
    (∃ es, HandsOver (fun _ _ out => collect w region out) es) ∧ w.WayUnseen region := by
  obtain ⟨index₀, changes, hcreated, hrun⟩ := h
  obtain ⟨es, hhands⟩ := AnyIndex.exists_handsOver hcreated changes region
  rw [hrun] at hhands
  obtain ⟨index, walk⟩ := w
  cases index with
  | grid g =>
      have hfiled := AnyIndex.filed_of_run_eq_grid hcreated hrun
      obtain ⟨es₁, es₂, hwalked, husual, hperm⟩ := WalkedGrid.exists_same_answer ⟨g, walk⟩
        ⟨g, .usual⟩ hfiled hfiled rfl (fun _ => rfl) region
      have hgrid : HandsOver (fun _ _ out => collect (AnyIndex.grid g) region out) es₂ :=
        WalkedGrid.handsOver_usual husual
      exact ⟨⟨es₁, hwalked⟩,
        wayUnseen_of_perm hwalked hgrid hperm fun hnot => absurd rfl (hnot g)⟩
  | quadtree t =>
      exact ⟨⟨es, hhands⟩, wayUnseen_of_perm hhands hhands (.refl es) fun _ _ => rfl⟩
  | octree t =>
      exact ⟨⟨es, hhands⟩, wayUnseen_of_perm hhands hhands (.refl es) fun _ _ => rfl⟩
  | scan scan =>
      exact ⟨⟨es, hhands⟩, wayUnseen_of_perm hhands hhands (.refl es) fun _ _ => rfl⟩

end WalkedIndex

/-- What a culler is asked in a frame: what a camera sees of an index. -/
structure Frame where
  index : WalkedIndex
  camera : Camera

namespace Frame

def region (frame : Frame) : Region := .frustum frame.camera.frustum

/-- What the index answers in the frame. -/
def seen (s : DigitSort) (frame : Frame) : List Handle := query frame.index frame.region s.sort

def Reached (frame : Frame) : Prop := frame.index.Reached

end Frame

/-- The least power of two that is not below a number. -/
def IsRoundedUp (n capacity : Nat) : Prop := IsLeast {p | n ≤ p ∧ ∃ k, p = 2 ^ k} capacity

theorem isRoundedUp_pow_clog (n : Nat) : IsRoundedUp n (2 ^ Nat.clog 2 n) := by
  refine ⟨⟨Nat.le_pow_clog Nat.one_lt_two n, _, rfl⟩, ?_⟩
  rintro p ⟨hp, k, rfl⟩
  exact Nat.pow_le_pow_right Nat.two_pos ((Nat.clog_le_iff_le_pow Nat.one_lt_two).mpr hp)

theorem IsRoundedUp.eq {n capacity : Nat} (h : IsRoundedUp n capacity) :
    capacity = 2 ^ Nat.clog 2 n :=
  IsLeast.unique h (isRoundedUp_pow_clog n)

namespace Culler

theorem leastPowerOfTwo_eq (n : Nat) : leastPowerOfTwo n = 2 ^ Nat.clog 2 n := by
  unfold leastPowerOfTwo
  split_ifs with hn
  · rw [Nat.clog_of_right_le_one hn, pow_zero]
  · have habove : n - 1 < 2 ^ ((n - 1).log2 + 1) := Nat.lt_log2_self
    have hbelow : 2 ^ (n - 1).log2 ≤ n - 1 := Nat.log2_self_le (by omega)
    have hle : Nat.clog 2 n ≤ (n - 1).log2 + 1 :=
      (Nat.clog_le_iff_le_pow Nat.one_lt_two).mpr (by omega)
    have hlt : (n - 1).log2 < Nat.clog 2 n :=
      (Nat.lt_clog_iff_pow_lt Nat.one_lt_two).mpr (by omega)
    exact congrArg (2 ^ ·) (show (n - 1).log2 + 1 = Nat.clog 2 n by omega)

theorem sizeOfCount_spanCount {count : Nat} (h : count < 2147483648) (buffer : Array Handle) :
    sizeOfCount (spanCount (some (count, buffer))) = count := by
  have hcount := toInt_spanCount h buffer
  have hpositive : (0 : Int64) ≤ (spanCount (some (count, buffer))).toInt64 := by
    rw [Int64.le_iff_toInt_le, Int32.toInt_toInt64, hcount]
    exact Int.natCast_nonneg count
  rw [sizeOfCount, Int64.toNat_toUInt64_of_le hpositive, Int64.toNatClampNeg,
    Int32.toInt_toInt64, hcount, Int.toNat_natCast]

/-- A buffer has slots for an answer, and a 32-bit integer counts it. -/
def Fits (c : Culler) (answer : List Handle) : Prop :=
  answer.length ≤ c.capacity ∧ answer.length < 2147483648

theorem lt_of_not_fits {c : Culler} {answer : List Handle} (h : ¬ c.Fits answer)
    (hcounted : answer.length < 2147483648) : c.capacity < answer.length := by
  by_contra hslots
  exact h ⟨not_lt.mp hslots, hcounted⟩

theorem visible_front (answer rest : List Handle) (overflows : Nat) :
    visible ⟨(answer ++ rest).toArray, answer.length, overflows⟩ = answer.toArray := by
  simp [visible]

section Cull

variable {ι : Type} [SpatialIndex ι] {index : ι} {camera : Camera} {es answer : List Handle}
  {s : DigitSort}
  (hhands : HandsOver (fun _ _ out => collect index (.frustum camera.frustum) out) es)
  (hanswer : query index (.frustum camera.frustum) s.sort = answer)

include hhands hanswer

theorem querySpan_eq (c : Culler) :
    querySpan index (.frustum camera.frustum) c.scratch s.sort =
      if answer.length ≤ c.capacity then
        some (answer.length, (answer ++ c.scratch.toList.drop answer.length).toArray)
      else none := by
  rw [querySpan_of_handsOver s.perm hhands,
    ← (query_perm_of_handsOver s.perm hhands).length_eq, hanswer]
  rfl

/-- The number that stands for an overflow is seen exactly if the answer does not fit. -/
theorem spanCount_eq_overflow_iff (c : Culler) :
    spanCount (querySpan index (.frustum camera.frustum) c.scratch s.sort) = overflowCount ↔
      ¬ c.Fits answer := by
  rw [querySpan_eq hhands hanswer, Fits]
  split_ifs with hslots
  · by_cases hcounted : answer.length < 2147483648
    · exact iff_of_false (spanCount_ne_overflow hcounted _) (not_not.mpr ⟨hslots, hcounted⟩)
    · exact iff_of_true (if_neg hcounted) (mt And.right hcounted)
  · exact iff_of_true rfl (mt And.left hslots)

theorem cull_of_fits {c : Culler} (h : c.Fits answer) :
    (c.cull camera index s.sort).1 =
      ⟨(answer ++ c.scratch.toList.drop answer.length).toArray, answer.length, c.overflows⟩ := by
  have hcount := mt (spanCount_eq_overflow_iff hhands hanswer c).mp (not_not.mpr h)
  have hspan := querySpan_eq hhands hanswer c
  rw [if_pos h.1] at hspan
  unfold cull
  rw [if_neg hcount, hspan, sizeOfCount_spanCount h.2]
  rfl

theorem cull_of_not_fits {c : Culler} (h : ¬ c.Fits answer) :
    (c.cull camera index s.sort).1 =
      ⟨(answer ++ List.replicate (2 ^ Nat.clog 2 answer.length - answer.length) default).toArray,
        answer.length, c.overflows + 1⟩ := by
  have hcount := (spanCount_eq_overflow_iff hhands hanswer c).mpr h
  have hseen : queryInto index (.frustum camera.frustum) #[] s.sort = answer.toArray := by
    rw [← hanswer, query, Array.toArray_toList]
  unfold cull
  rw [if_pos hcount, hseen]
  simp [leastPowerOfTwo_eq]

end Cull

/-- What a call does to a culler, told by the answer that it is to show. -/
structure Shows (answer : List Handle) (before after : Culler) : Prop where
  visible_eq : after.visible = answer.toArray
  of_fits : before.Fits answer →
    after.capacity = before.capacity ∧ after.overflows = before.overflows
  of_not_fits : ¬ before.Fits answer →
    IsRoundedUp answer.length after.capacity ∧ after.overflows = before.overflows + 1

/-- A call shows what the index answers. -/
theorem shows_cull {ι : Type} [SpatialIndex ι] {index : ι} {camera : Camera} {es : List Handle}
    (hhands : HandsOver (fun _ _ out => collect index (.frustum camera.frustum) out) es)
    (s : DigitSort) (c : Culler) :
    Shows (query index (.frustum camera.frustum) s.sort) c (c.cull camera index s.sort).1 := by
  by_cases h : c.Fits (query index (.frustum camera.frustum) s.sort)
  · rw [cull_of_fits hhands rfl h]
    refine ⟨visible_front _ _ _, fun _ => ⟨?_, rfl⟩, fun hnot => absurd h hnot⟩
    have hslots : (query index (.frustum camera.frustum) s.sort).length ≤ c.scratch.size := h.1
    simp [capacity, hslots]
  · rw [cull_of_not_fits hhands rfl h]
    refine ⟨visible_front _ _ _, fun hfits => absurd hfits h, fun _ => ⟨?_, rfl⟩⟩
    have hroom :=
      Nat.le_pow_clog Nat.one_lt_two (query index (.frustum camera.frustum) s.sort).length
    have hcapacity := isRoundedUp_pow_clog (query index (.frustum camera.frustum) s.sort).length
    simpa [capacity, hroom] using hcapacity

namespace Shows

variable {answer answer' : List Handle} {c c' c'' : Culler}

theorem length_le (h : Shows answer c c') : answer.length ≤ c'.capacity := by
  by_cases hfits : c.Fits answer
  · rw [(h.of_fits hfits).1]
    exact hfits.1
  · exact (h.of_not_fits hfits).1.1.1

theorem capacity_le (h : Shows answer c c') (hcounted : answer.length < 2147483648) :
    c.capacity ≤ c'.capacity := by
  by_cases hfits : c.Fits answer
  · exact (h.of_fits hfits).1.ge
  · exact (lt_of_not_fits hfits hcounted).le.trans h.length_le

/-- A buffer that has grown has room for an answer as large. -/
theorem overflows_eq_of_repeat (h : Shows answer c c') (h' : Shows answer' c' c'')
    (hlength : answer'.length = answer.length) (hcounted : answer.length < 2147483648) :
    c''.overflows = c'.overflows := by
  refine (h'.of_fits ⟨?_, ?_⟩).2
  · rw [hlength]
    exact h.length_le
  · rwa [hlength]

end Shows

/-- A buffer that has grown for a counted answer has room for a power of two, whose exponent
accounts for all overflows but the first and those of answers that are not counted. -/
def Accounted (most uncounted : Nat) (c : Culler) : Prop :=
  c.overflows ≤ uncounted ∨
    ∃ k ≤ Nat.clog 2 most, k ≤ 31 ∧ 2 ^ k ≤ c.capacity ∧ c.overflows ≤ k + 1 + uncounted

theorem Accounted.overflows_le {most uncounted : Nat} {c : Culler}
    (h : c.Accounted most uncounted) : c.overflows ≤ 1 + Nat.clog 2 most + uncounted := by
  rcases h with hfew | ⟨k, hk, -, -, hoverflows⟩ <;> omega

section Accounting

variable {answer : List Handle} {most uncounted : Nat} {c c' : Culler}

theorem clog_le_of_lt {n : Nat} (h : n < 2147483648) : Nat.clog 2 n ≤ 31 :=
  (Nat.clog_le_iff_le_pow Nat.one_lt_two).mpr (by omega)

/-- A counted answer that does not fit has a larger exponent than the buffer. -/
theorem Shows.accounted (h : Shows answer c c') (hmost : answer.length ≤ most)
    (hcounted : answer.length < 2147483648) (hc : c.Accounted most uncounted) :
    c'.Accounted most uncounted := by
  unfold Accounted
  by_cases hfits : c.Fits answer
  · obtain ⟨hcapacity, hoverflows⟩ := h.of_fits hfits
    rwa [hcapacity, hoverflows]
  · obtain ⟨hrounded, hoverflows⟩ := h.of_not_fits hfits
    refine .inr ⟨Nat.clog 2 answer.length, Nat.clog_mono_right 2 hmost, clog_le_of_lt hcounted,
      hrounded.eq.ge, ?_⟩
    rw [hoverflows]
    rcases hc with hfew | ⟨k, -, -, hcapacity, hk⟩
    · omega
    · have hshort := lt_of_not_fits hfits hcounted
      have hlt : k < Nat.clog 2 answer.length :=
        (Nat.lt_clog_iff_pow_lt Nat.one_lt_two).mpr (hcapacity.trans_lt hshort)
      omega

/-- An answer that is not counted leaves room for every one that is. -/
theorem Shows.accounted_succ (h : Shows answer c c') (huncounted : 2147483648 ≤ answer.length)
    (hc : c.Accounted most uncounted) : c'.Accounted most (uncounted + 1) := by
  obtain ⟨-, hoverflows⟩ := h.of_not_fits fun hfits => absurd hfits.2 (by omega)
  unfold Accounted
  rw [hoverflows]
  rcases hc with hfew | ⟨k, hk, hbits, -, hoverflows'⟩
  · exact .inl (by omega)
  · refine .inr ⟨k, hk, hbits, ?_, by omega⟩
    calc
      2 ^ k ≤ 2 ^ 31 := Nat.pow_le_pow_right Nat.two_pos hbits
      _ ≤ answer.length := huncounted
      _ ≤ c'.capacity := h.length_le

end Accounting

/-- The culler after a frame. -/
def look (s : DigitSort) (c : Culler) (frame : Frame) : Culler :=
  (c.cull frame.camera frame.index s.sort).1

def watch (s : DigitSort) (c : Culler) (frames : List Frame) : Culler := frames.foldl (look s) c

/-- How many of the answers in some frames a 32-bit integer does not count. -/
def uncounted (s : DigitSort) (frames : List Frame) : Nat :=
  frames.countP fun frame => 2147483648 ≤ (frame.seen s).length

theorem shows_look {frame : Frame} (h : frame.Reached) (s : DigitSort) (c : Culler) :
    Shows (frame.seen s) c (c.look s frame) := by
  obtain ⟨⟨es, hhands⟩, -⟩ := WalkedIndex.exists_answer h frame.region
  exact shows_cull hhands s c

theorem accounted_watch {s : DigitSort} {frames : List Frame} {most before : Nat} {c : Culler}
    (hreached : ∀ frame ∈ frames, frame.Reached)
    (hmost : ∀ frame ∈ frames,
      (frame.seen s).length < 2147483648 → (frame.seen s).length ≤ most)
    (hc : c.Accounted most before) :
    (c.watch s frames).Accounted most (before + uncounted s frames) := by
  induction frames generalizing c before with
  | nil => exact hc
  | cons frame frames ih =>
      rw [List.forall_mem_cons] at hreached hmost
      have hshows := shows_look hreached.1 s c
      unfold uncounted
      rw [List.countP_cons]
      by_cases hcounted : (frame.seen s).length < 2147483648
      · rw [if_neg (by simpa using hcounted)]
        exact ih hreached.2 hmost.2 (hshows.accounted (hmost.1 hcounted) hcounted hc)
      · rw [if_pos (by simpa using hcounted), Nat.add_comm _ 1, ← Nat.add_assoc]
        exact ih hreached.2 hmost.2 (hshows.accounted_succ (not_lt.mp hcounted) hc)

theorem create_eq_ok {capacity : Nat} (h : capacity ≤ greatestCapacity) :
    create capacity = .ok (ofCapacity capacity) := if_pos h

theorem create_eq_error {capacity : Nat} (h : greatestCapacity < capacity) :
    create capacity = .error ⟨capacity⟩ := if_neg (not_le.mpr h)

theorem eq_of_create {capacity : Nat} {c : Culler} (h : create capacity = .ok c) :
    c = ofCapacity capacity := by
  unfold create at h
  split_ifs at h
  exact (Except.ok.inj h).symm

@[simp]
theorem capacity_ofCapacity (n : Nat) : (ofCapacity n).capacity = n := Array.size_replicate

@[simp] theorem overflows_ofCapacity (n : Nat) : (ofCapacity n).overflows = 0 := rfl

/-- Whatever was seen before, a call shows what the index answers at that moment, by whatever
sort, and the way through a grid is seen at most in the order. The buffer is left alone if a
counted answer fits, and otherwise becomes as large as the least power of two that is not below
its size `n`, which is counted as an overflow. So a buffer does not shrink for a counted answer,
the same call made again fits then, and there are at most `1 + ⌈log₂ n⌉` overflows for the
largest counted `n`, and one more for each answer of `2 ^ 31` handles or more. -/
theorem shows_seen_of_frames {capacity : Nat} {c₀ : Culler} (hcreate : create capacity = .ok c₀)
    (s : DigitSort) {before : List Frame} {frame : Frame}
    (hbefore : ∀ f ∈ before, f.Reached) (hframe : frame.Reached) :
    let c := c₀.watch s before
    let c' := c.look s frame
    let n := (frame.seen s).length
    c₀.capacity = capacity ∧
    (c'.visible = (frame.seen s).toArray ∧ frame.index.WayUnseen frame.region) ∧
    (n ≤ c.capacity ∧ n < 2147483648 →
      c'.capacity = c.capacity ∧ c'.overflows = c.overflows) ∧
    (c.capacity < n ∨ 2147483648 ≤ n →
      IsRoundedUp n c'.capacity ∧ c'.overflows = c.overflows + 1) ∧
    (n < 2147483648 → c.capacity ≤ c'.capacity ∧
      ∀ walk, (c'.look s ⟨⟨frame.index.index, walk⟩, frame.camera⟩).overflows = c'.overflows) ∧
    ∀ most, (∀ f ∈ before ++ [frame],
        (f.seen s).length < 2147483648 → (f.seen s).length ≤ most) →
      c'.overflows ≤ 1 + Nat.clog 2 most + uncounted s (before ++ [frame]) := by
  intro c c' n
  have hshows : Shows (frame.seen s) c c' := shows_look hframe s c
  obtain ⟨-, hunseen⟩ := WalkedIndex.exists_answer hframe frame.region
  obtain rfl := eq_of_create hcreate
  refine ⟨capacity_ofCapacity capacity, ⟨hshows.visible_eq, hunseen⟩, hshows.of_fits, ?_, ?_, ?_⟩
  · intro hlarge
    apply hshows.of_not_fits
    rintro ⟨hslots, hcounted⟩
    omega
  · intro hcounted
    refine ⟨hshows.capacity_le hcounted, ?_⟩
    intro walk
    let again : Frame := ⟨⟨frame.index.index, walk⟩, frame.camera⟩
    have hagain : again.Reached := hframe
    obtain ⟨-, hunseen'⟩ := WalkedIndex.exists_answer hagain again.region
    have hlength : (again.seen s).length = n :=
      ((hunseen'.perm s).trans (hunseen.perm s).symm).length_eq
    exact hshows.overflows_eq_of_repeat (shows_look hagain s c') hlength hcounted
  · intro most hmost
    have hreached : ∀ f ∈ before ++ [frame], f.Reached := by
      rw [List.forall_mem_append, List.forall_mem_singleton]
      exact ⟨hbefore, hframe⟩
    have hc' : c' = (ofCapacity capacity).watch s (before ++ [frame]) := by
      rw [watch, List.foldl_append]
      rfl
    have hnone : (ofCapacity capacity).Accounted most 0 := .inl le_rfl
    have haccounted := accounted_watch hreached hmost hnone
    rw [Nat.zero_add, ← hc'] at haccounted
    exact haccounted.overflows_le

/-- A buffer of one slot grows to four for the three entities that a scan finds, and has room
for the two that are met in a grid later, the last cell first. -/
theorem shows_seen_of_frames_growing :
    let backward : Walk :=
      ⟨fun g => g.cells.keys.reverse, fun _ => List.reverse_perm _, fun _ _ => false⟩
    let camera : Camera := .ofMatrices .identity .identity
    let scanned : Frame :=
      ⟨⟨run (.scan (.empty true)) [.update ⟨3, 0⟩ .zero none, .update ⟨1, 0⟩ .zero none,
        .update ⟨4, 0⟩ (.splat 2) none, .update ⟨2, 0⟩ .zero none], .usual⟩, camera⟩
    let walked : Frame :=
      ⟨⟨run (.grid (Grid.empty {})) [.update ⟨1, 0⟩ (.splat (-1)) none, .update ⟨2, 0⟩ .zero none],
        backward⟩, camera⟩
    let c := (ofCapacity 1).look .stable scanned
    c.visible = #[⟨1, 0⟩, ⟨2, 0⟩, ⟨3, 0⟩] ∧ c.capacity = 4 ∧ c.overflows = 1 ∧
      (c.look .stable scanned).overflows = 1 ∧
      (c.look .stable walked).visible = #[⟨2, 0⟩, ⟨1, 0⟩] ∧
      (c.look .stable walked).capacity = 4 ∧ (c.look .stable walked).overflows ≤ 3 := by
  intro backward camera scanned walked c
  have hcreate : create 1 = .ok (ofCapacity 1) := create_eq_ok (by decide)
  have hscanned : scanned.Reached := ⟨.scan (.empty true), _, .scan true, rfl⟩
  have hwalked : walked.Reached :=
    ⟨.grid (Grid.empty {}), _, .grid (Grid.create_eq_ok (by decide +kernel)), rfl⟩
  have hthree : scanned.seen .stable = [⟨1, 0⟩, ⟨2, 0⟩, ⟨3, 0⟩] := by decide +kernel
  have htwo : walked.seen .stable = [⟨2, 0⟩, ⟨1, 0⟩] := by decide +kernel
  have hbefore : ∀ f ∈ ([] : List Frame), f.Reached := List.forall_mem_nil _
  have hbefore' : ∀ f ∈ [scanned], f.Reached := List.forall_mem_singleton.mpr hscanned
  obtain ⟨-, ⟨hshown, -⟩, -, hgrown, hleft, -⟩ :=
    shows_seen_of_frames hcreate .stable hbefore hscanned
  obtain ⟨-, ⟨hshown', -⟩, hroom, -, -, hmost⟩ :=
    shows_seen_of_frames hcreate .stable hbefore' hwalked
  rw [hthree] at hshown hgrown hleft
  rw [htwo] at hshown' hroom
  obtain ⟨hrounded, hoverflows⟩ := hgrown (by decide)
  have hfour : c.capacity = 4 := hrounded.eq.trans (by decide)
  have hone : c.overflows = 1 := hoverflows
  have hagain := (hleft (by decide)).2 .usual
  obtain ⟨hkept, -⟩ := hroom ⟨hfour.symm ▸ by decide, by decide⟩
  refine ⟨hshown, hfour, hone, hagain.trans hone, hshown', hkept.trans hfour, ?_⟩
  have hseen : ∀ f ∈ [scanned, walked], (f.seen .stable).length ≤ 3 := by
    simp [hthree, htwo]
  have hall : uncounted .stable [scanned, walked] = 0 := by
    simp [uncounted, hthree, htwo]
  refine (hmost 3 fun f hf _ => hseen f hf).trans ?_
  exact (congrArg (1 + Nat.clog 2 3 + ·) hall).le.trans (by decide)

section Crowd

/-- Entities come to one point. -/
def gather (entities : List Handle) : List Change :=
  entities.map fun e => .update e .zero none

/-- A scan of entities at one point, all of them in view. -/
def crowd (entities : List Handle) : Frame :=
  ⟨⟨run (.scan (.empty true)) (gather entities), .usual⟩, .ofMatrices .identity .identity⟩

variable {entities : List Handle}

theorem reached_crowd (entities : List Handle) : (crowd entities).Reached :=
  ⟨.scan (.empty true), gather entities, .scan true, rfl⟩

theorem tracked_gather {e : Handle} (h : e ∈ entities) :
    trackedBoxes (gather entities) e = some (.ofPoint .zero) := by
  induction entities using List.reverseRecOn with
  | nil => cases h
  | append_singleton entities last ih =>
      unfold trackedBoxes gather
      rw [List.map_append, List.foldl_append]
      change (if e = last then _ else _) = _
      split_ifs with hlast
      · rfl
      · exact ih ((List.mem_append.mp h).resolve_right fun hmem =>
          hlast (List.mem_singleton.mp hmem))

/-- All of a crowd is seen. -/
theorem seen_crowd_perm (h : entities.Nodup) (s : DigitSort) :
    ((crowd entities).seen s).Perm entities := by
  let scan := run (LinearScan.empty true) (gather entities)
  obtain ⟨hnodup, hmem⟩ := LinearScan.answer_run true (gather entities) (crowd entities).region
  have hview : (Region.frustum (Camera.ofMatrices .identity .identity).frustum).meets
      (.ofPoint .zero) = true := by decide +kernel
  have hall : (scan.answer (crowd entities).region).Perm entities := by
    refine (List.perm_ext_iff_of_nodup hnodup h).mpr fun e => (hmem e).trans ?_
    constructor
    · rintro ⟨box, hbox, -⟩
      obtain ⟨position, bounds, hupdate, -⟩ := exists_update_of_tracked hbox
      obtain ⟨e', he', heq⟩ := List.mem_map.mp hupdate
      exact (Change.update.inj heq).1 ▸ he'
    · intro he
      exact ⟨_, tracked_gather he, hview⟩
  have hindex : (crowd entities).index = ⟨.scan scan, .usual⟩ :=
    congrArg (WalkedIndex.mk · .usual) (AnyIndex.run_scan _ _)
  unfold Frame.seen
  rw [hindex]
  exact (query_perm_of_handsOver s.perm (LinearScan.handsOver_collect scan _)).trans hall

/-- Handles whose identifiers are the numbers below `n`. -/
def numbered (n : Nat) : List Handle := (List.range n).map fun i => ⟨UInt32.ofNat i, 0⟩

theorem nodup_numbered {n : Nat} (h : n ≤ 4294967296) : (numbered n).Nodup := by
  refine List.Nodup.map_on (fun i hi j hj heq => ?_) List.nodup_range
  have hid := congrArg (fun e : Handle => e.id.toNat) heq
  rw [List.mem_range] at hi hj
  simpa [Nat.mod_eq_of_lt (hi.trans_le h), Nat.mod_eq_of_lt (hj.trans_le h)] using hid

theorem length_seen_numbered {n : Nat} (h : n ≤ 4294967296) (s : DigitSort) :
    ((crowd (numbered n)).seen s).length = n := by
  rw [(seen_crowd_perm (nodup_numbered h) s).length_eq, numbered, List.length_map,
    List.length_range]

theorem overflows_watch_replicate {s : DigitSort} {frame : Frame} (hframe : frame.Reached)
    (huncounted : 2147483648 ≤ (frame.seen s).length) (k : Nat) (c : Culler) :
    (c.watch s (List.replicate k frame)).overflows = c.overflows + k := by
  induction k generalizing c with
  | zero => rfl
  | succ k ih =>
      obtain ⟨-, hoverflows⟩ := (shows_look hframe s c).of_not_fits fun hfits =>
        absurd hfits.2 (by omega)
      rw [List.replicate_succ]
      refine (ih (c.look s frame)).trans ?_
      omega

end Crowd

/-- Where `2 ^ 31` entities are in view, a buffer with a slot for each of them and one more
overflows, shrinks by that slot, and overflows again, so that there are more overflows than the
size of the answer has bits. A buffer of `2 ^ 60` handles cannot be had to begin with. -/
theorem fitting_answer_overflows :
    let frame := crowd (numbered 2147483648)
    let c := ofCapacity 2147483649
    let c' := c.look .byGeneration frame
    create 2147483649 = .ok c ∧ frame.Reached ∧
      (frame.seen .byGeneration).length = 2147483648 ∧ c.capacity = 2147483649 ∧
      c'.overflows = 1 ∧ c'.capacity = 2147483648 ∧
      (c'.look .byGeneration frame).overflows = 2 ∧
      1 + Nat.clog 2 2147483648 <
        (c.watch .byGeneration (List.replicate 33 frame)).overflows ∧
      create 1152921504606846976 = .error ⟨1152921504606846976⟩ := by
  have hseen : ((crowd (numbered 2147483648)).seen .byGeneration).length = 2147483648 :=
    length_seen_numbered (by omega) _
  have hreached := reached_crowd (numbered 2147483648)
  have hbits : Nat.clog 2 2147483648 = 31 := by
    rw [show 2147483648 = 2 ^ 31 by norm_num, Nat.clog_pow 2 31 Nat.one_lt_two]
  have hlook (c : Culler) :
      (c.look .byGeneration (crowd (numbered 2147483648))).capacity = 2147483648 ∧
        (c.look .byGeneration (crowd (numbered 2147483648))).overflows = c.overflows + 1 := by
    obtain ⟨hrounded, hoverflows⟩ :=
      (shows_look hreached .byGeneration c).of_not_fits fun hfits => absurd hfits.2 (by omega)
    refine ⟨?_, hoverflows⟩
    rw [hrounded.eq, hseen, hbits]
    norm_num
  have hnone : (ofCapacity 2147483649).overflows = 0 := overflows_ofCapacity _
  refine ⟨create_eq_ok (by decide +kernel), hreached, hseen, capacity_ofCapacity _, ?_,
    (hlook _).1, ?_, ?_, create_eq_error (by decide +kernel)⟩
  · rw [(hlook _).2, hnone]
  · rw [(hlook _).2, (hlook _).2, hnone]
  · rw [overflows_watch_replicate hreached hseen.ge, hbits, hnone]
    decide

end Culler

end Broadphase
