import Mathlib
import Broadphase.Index
import Broadphase.Proofs.Handle.Radix

/-!
The digits of a handle order handles by identifier. A stable distribution by a digit is determined
by its two properties, so passes with any of them from the least significant digit on give the
list that the buckets give: a rearrangement, ascending by identifier, in which handles of one
identifier keep their order. Identifiers are compared as their digits are from the most
significant one on, so any sort by digits, stable or not, puts what an index appends to an answer
or writes into a buffer in ascending order of identifiers, and touches nothing else.
-/

namespace Broadphase

namespace Radix

variable {α : Type}

/-- A way to distribute elements by a digit: smaller digits come first, and elements of equal
digit keep their order. -/
structure Distribution (α : Type) where
  distribute : (α → UInt8) → List α → List α
  ascending : ∀ digit elements,
    (distribute digit elements).Pairwise fun a b => digit a ≤ digit b
  stable : ∀ digit elements d,
    (distribute digit elements).filter (digit · = d) = elements.filter (digit · = d)

section Buckets

variable (digit : α → UInt8) (elements : List α)

private theorem filter_flatMap_filter (d : UInt8) (n : Nat) :
    ((List.range n).flatMap fun d => elements.filter fun e => (digit e).toNat = d).filter
      (digit · = d) = if d.toNat < n then elements.filter (digit · = d) else [] := by
  induction n with
  | zero => rfl
  | succ n ih =>
      rw [List.range_succ, List.flatMap_append, List.flatMap_singleton, List.filter_append, ih,
        List.filter_filter]
      -- The last bucket is the one of the digit, or has nothing of it.
      by_cases hd : d.toNat = n
      · have hsame : (elements.filter fun e =>
            decide (digit e = d) && decide ((digit e).toNat = n)) =
              elements.filter (digit · = d) := by
          apply List.filter_congr
          intro e _
          simp only [← hd, UInt8.toNat_inj, Bool.and_self]
        rw [hsame, if_neg (by omega), if_pos (by omega), List.nil_append]
      · have hnone : (elements.filter fun e =>
            decide (digit e = d) && decide ((digit e).toNat = n)) = [] := by
          apply List.filter_eq_nil_iff.mpr
          intro e _ he
          rw [Bool.and_eq_true, decide_eq_true_eq, decide_eq_true_eq] at he
          exact hd (he.1 ▸ he.2)
        rw [hnone, List.append_nil]
        congr 1
        rw [eq_iff_iff]
        omega

/-- A bucket holds the elements of its digit in their order. -/
theorem filter_pass (d : UInt8) :
    (pass digit elements).filter (digit · = d) = elements.filter (digit · = d) := by
  rw [pass_eq, filter_flatMap_filter, if_pos d.toNat_lt]

theorem ascending_pass : (pass digit elements).Pairwise fun a b => digit a ≤ digit b := by
  have hall : elements.Pairwise fun _ _ => True := List.pairwise_of_forall fun _ _ => trivial
  refine (pairwise_pass digit hall).imp fun {a b} hab => ?_
  rw [UInt8.le_iff_toNat_le]
  exact hab.elim Nat.le_of_lt fun heq => heq.1.le

/-- The buckets of a pass are such a way. -/
def Distribution.buckets : Distribution α := ⟨pass, ascending_pass, filter_pass⟩

end Buckets

section Determined

variable {digit : α → UInt8} {l l' : List α}

theorem mem_iff_of_filter_eq (h : ∀ d, l.filter (digit · = d) = l'.filter (digit · = d)) (e : α) :
    e ∈ l ↔ e ∈ l' := by
  have hkept : e ∈ l.filter (digit · = digit e) ↔ e ∈ l'.filter (digit · = digit e) := by
    rw [h]
  simpa only [List.mem_filter, decide_true, and_true] using hkept

theorem head_le_of_mem {a e : α} (h : (a :: l).Pairwise fun a b => digit a ≤ digit b)
    (he : e ∈ a :: l) : digit a ≤ digit e := by
  rcases List.mem_cons.mp he with rfl | htail
  · exact UInt8.le_refl _
  · exact (List.pairwise_cons.mp h).1 e htail

/-- A list that ascends by a digit is determined by what it has of each digit. -/
theorem eq_of_filter_eq (h : l.Pairwise fun a b => digit a ≤ digit b)
    (h' : l'.Pairwise fun a b => digit a ≤ digit b)
    (hfilter : ∀ d, l.filter (digit · = d) = l'.filter (digit · = d)) : l = l' := by
  induction l generalizing l' with
  | nil =>
      symm
      apply List.eq_nil_iff_forall_not_mem.mpr
      intro b hb
      exact List.not_mem_nil ((mem_iff_of_filter_eq hfilter b).mpr hb)
  | cons a l ih =>
      have hmem := mem_iff_of_filter_eq hfilter
      cases l' with
      | nil => exact absurd ((hmem a).mp List.mem_cons_self) List.not_mem_nil
      | cons b l' =>
          -- Both lists have the same members, and each begins with its least digit.
          have hdigit : digit a = digit b :=
            UInt8.le_antisymm (head_le_of_mem h ((hmem b).mpr List.mem_cons_self))
              (head_le_of_mem h' ((hmem a).mp List.mem_cons_self))
          have hheads := hfilter (digit a)
          simp only [List.filter_cons, hdigit, decide_true, if_true] at hheads
          obtain rfl : a = b := (List.cons.inj hheads).1
          have htails : ∀ d, l.filter (digit · = d) = l'.filter (digit · = d) := by
            intro d
            have hd := hfilter d
            rw [List.filter_cons, List.filter_cons] at hd
            split_ifs at hd
            · exact (List.cons.inj hd).2
            · exact hd
          rw [ih (List.pairwise_cons.mp h).2 (List.pairwise_cons.mp h').2 htails]

end Determined

theorem Distribution.distribute_eq (D : Distribution α) (digit : α → UInt8) (elements : List α) :
    D.distribute digit elements = pass digit elements := by
  apply eq_of_filter_eq (D.ascending digit elements) (ascending_pass digit elements)
  intro d
  rw [D.stable, filter_pass]

/-- One pass for each level, the least significant digit first. -/
def Distribution.passes (D : Distribution α) (digit : α → Nat → UInt8) (elements : List α) :
    List α :=
  (List.range levels).foldl (fun sorted level => D.distribute (digit · level) sorted) elements

/-- It does not matter how the passes distribute. -/
theorem Distribution.passes_eq (D : Distribution α) (key : α → UInt32) (elements : List α) :
    D.passes (fun e level => byte (key e) level) elements = sortOn key elements := by
  unfold passes sortOn
  congr 1
  funext sorted level
  exact D.distribute_eq _ sorted

theorem filter_passesBelow (key : α → UInt32) (i : UInt32) (level : Nat) (elements : List α) :
    (passesBelow key level elements).filter (key · = i) = elements.filter (key · = i) := by
  induction level with
  | zero => rfl
  | succ level ih =>
      -- Elements of one key have one digit, so a pass keeps their order.
      have hsplit : ∀ l : List α, l.filter (key · = i) =
          (l.filter fun e => byte (key e) level = byte i level).filter (key · = i) := by
        intro l
        rw [List.filter_filter]
        apply List.filter_congr
        intro e _
        by_cases he : key e = i <;> simp [he]
      rw [passesBelow_succ, hsplit, filter_pass, ← hsplit, ih]

end Radix

namespace Span

theorem toList_written (span : Span) : span.written.toList = span.buffer.toList.take span.used := by
  simp [written]

theorem toList_untouched (span : Span) :
    span.untouched.toList = span.buffer.toList.drop span.used := by
  simp [untouched]

end Span

namespace Handle

/-- The digits of a handle, the most significant one first. -/
def digits (h : Handle) : List UInt8 := (List.range Radix.levels).reverse.map h.digit

theorem digits_lt_iff {a b : Handle} : a.digits < b.digits ↔ a.id < b.id := Radix.bytes_lt_iff

theorem digits_inj {a b : Handle} : a.digits = b.digits ↔ a.id = b.id := Radix.bytes_inj

theorem digits_le_iff {a b : Handle} : a.digits ≤ b.digits ↔ a.id ≤ b.id := by
  rw [← UInt32.not_lt, ← digits_lt_iff]
  exact Iff.rfl

/-- A rearrangement in ascending order of identifiers. -/
structure Ascends (handles sorted : List Handle) : Prop where
  perm : sorted.Perm handles
  ascending : sorted.Pairwise fun a b => a.id ≤ b.id

theorem ascends_sortById (handles : List Handle) : Ascends handles (sortById handles) :=
  ⟨Radix.sortOn_perm id handles, Radix.ascending_sortOn id handles⟩

theorem ascends_sort (handles : List Handle) : Ascends handles (sort handles) := by
  refine ⟨sort_perm handles, ?_⟩
  unfold sort
  exact (ascends_sortById _).ascending

/-- The identifiers of such a rearrangement do not depend on how it was made. -/
theorem Ascends.ids_eq {handles sorted sorted' : List Handle} (h : Ascends handles sorted)
    (h' : Ascends handles sorted') : sorted.map Handle.id = sorted'.map Handle.id := by
  have hperm : (sorted.map Handle.id).Perm (sorted'.map Handle.id) :=
    (h.perm.trans h'.perm.symm).map Handle.id
  exact hperm.eq_of_pairwise (fun _ _ _ _ => UInt32.le_antisymm)
    (List.pairwise_map.mpr h.ascending) (List.pairwise_map.mpr h'.ascending)

/-- A sort that compares the digits of handles from the most significant one on. Handles of equal
digits may come in any order. -/
structure DigitSort where
  sort : List Handle → List Handle
  perm : ∀ handles, (sort handles).Perm handles
  ascending : ∀ handles, (sort handles).Pairwise fun a b => a.digits ≤ b.digits

namespace DigitSort

/-- The sort by identifier and generation. -/
def byGeneration : DigitSort where
  sort := Handle.sort
  perm := sort_perm
  ascending handles := (ascends_sort handles).ascending.imp digits_le_iff.mpr

variable (s : DigitSort)

theorem ascends (handles : List Handle) : Ascends handles (s.sort handles) :=
  ⟨s.perm handles, (s.ascending handles).imp digits_le_iff.mp⟩

/-- Sort the elements of an array from a position on. -/
def sortFrom (start : Nat) (out : Array Handle) : Array Handle :=
  SpatialIndex.sortFrom start out s.sort

/-- Sort the slots of a buffer that have been written. -/
def sortSpan (span : Span) : Span := span.sort s.sort

theorem sortFrom_byGeneration (start : Nat) (out : Array Handle) :
    byGeneration.sortFrom start out = SpatialIndex.sortFrom start out := by
  simp only [sortFrom, byGeneration]

theorem sortSpan_byGeneration (span : Span) : byGeneration.sortSpan span = span.sort := by
  simp only [sortSpan, byGeneration]

/-- A list put together from parts as long as those of another list has the seam in the same
place. -/
theorem take_append_and_drop_append {l front back : List Handle} {n : Nat}
    (hfront : front.length = (l.take n).length) (hback : back.length = (l.drop n).length) :
    (front ++ back).take n = front ∧ (front ++ back).drop n = back := by
  rw [List.length_take] at hfront
  rw [List.length_drop] at hback
  rcases le_total n l.length with hle | hle
  · have hn : front.length = n := hfront.trans (Nat.min_eq_left hle)
    exact ⟨List.take_left' hn, List.drop_left' hn⟩
  · have hn : front.length ≤ n := hfront.le.trans (Nat.min_le_left n l.length)
    obtain rfl : back = [] :=
      List.eq_nil_of_length_eq_zero (hback.trans (Nat.sub_eq_zero_of_le hle))
    rw [List.append_nil]
    exact ⟨List.take_of_length_le hn, List.drop_eq_nil_of_le hn⟩

theorem toList_sortFrom (start : Nat) (out : Array Handle) :
    (s.sortFrom start out).toList = out.toList.take start ++ s.sort (out.toList.drop start) := by
  simp [sortFrom, SpatialIndex.sortFrom]

theorem toList_sortSpan (span : Span) : (s.sortSpan span).buffer.toList =
    s.sort span.written.toList ++ span.untouched.toList := by
  simp [sortSpan, Span.sort]

/-- What is in the array before the position stays, and the rest is put in order. -/
theorem ascends_sortFrom (start : Nat) (out : Array Handle) :
    (s.sortFrom start out).toList.take start = out.toList.take start ∧
      Ascends (out.toList.drop start) ((s.sortFrom start out).toList.drop start) := by
  obtain ⟨htake, hdrop⟩ := take_append_and_drop_append (l := out.toList) (n := start) rfl
    (s.perm (out.toList.drop start)).length_eq
  rw [toList_sortFrom, htake, hdrop]
  exact ⟨rfl, s.ascends _⟩

/-- What is written in the buffer is put in order, and the rest stays. -/
theorem ascends_sortSpan (span : Span) :
    Ascends span.written.toList (s.sortSpan span).written.toList ∧
      (s.sortSpan span).untouched = span.untouched := by
  have hused : (s.sortSpan span).used = span.used := rfl
  have hlength := (s.perm span.written.toList).length_eq
  rw [span.toList_written] at hlength
  obtain ⟨htake, hdrop⟩ :=
    take_append_and_drop_append hlength (congrArg List.length span.toList_untouched)
  constructor
  · rw [Span.toList_written (s.sortSpan span), hused, toList_sortSpan, span.toList_written, htake]
    exact s.ascends _
  · apply Array.toList_inj.mp
    rw [Span.toList_untouched, hused, toList_sortSpan, span.toList_written, hdrop]

/-- Any sort by digits gives an answer the identifiers that an index gives it. -/
theorem ids_sortFrom (start : Nat) (out : Array Handle) :
    (s.sortFrom start out).toList.map Handle.id =
      (SpatialIndex.sortFrom start out).toList.map Handle.id := by
  rw [← sortFrom_byGeneration, toList_sortFrom, toList_sortFrom, List.map_append, List.map_append,
    (s.ascends _).ids_eq (byGeneration.ascends _)]

theorem ids_sortSpan (span : Span) :
    (s.sortSpan span).buffer.toList.map Handle.id = span.sort.buffer.toList.map Handle.id := by
  rw [← sortSpan_byGeneration, toList_sortSpan, toList_sortSpan, List.map_append, List.map_append,
    (s.ascends _).ids_eq (byGeneration.ascends _)]

end DigitSort

/-- Digits give the order of identifiers, in which handles are put by passes with any stable
distribution, and in which answers are put by any sort that compares digits. -/
structure OrdersById (d : Radix.Distribution Handle) (s : DigitSort) : Prop where
  passes_eq : ∀ handles, d.passes digit handles = sortById handles
  passes : ∀ handles, Ascends handles (d.passes digit handles)
  /-- Handles of one identifier keep their order in the passes. -/
  keeps : ∀ handles i, (d.passes digit handles).filter (·.id = i) = handles.filter (·.id = i)
  lt_iff : ∀ a b : Handle, a.id < b.id ↔ a.digits < b.digits
  eq_iff : ∀ a b : Handle, a.digits = b.digits ↔ a.id = b.id
  /-- Of an array, only the part from a position on is put in order. -/
  appended : ∀ start out, (s.sortFrom start out).toList.take start = out.toList.take start ∧
    Ascends (out.toList.drop start) ((s.sortFrom start out).toList.drop start)
  /-- Of a buffer, only the written part is. -/
  written : ∀ span, Ascends span.written.toList (s.sortSpan span).written.toList ∧
    (s.sortSpan span).untouched = span.untouched
  /-- An index answers the same identifiers at the same places. -/
  ids_eq : (∀ start out, (s.sortFrom start out).toList.map Handle.id =
      (SpatialIndex.sortFrom start out).toList.map Handle.id) ∧
    ∀ span, (s.sortSpan span).buffer.toList.map Handle.id = span.sort.buffer.toList.map Handle.id

/-- However the passes distribute and however the digits are compared, handles come in ascending
order of identifiers. -/
theorem orders_by_id (d : Radix.Distribution Handle) (s : DigitSort) : OrdersById d s := by
  have hpasses : ∀ handles, d.passes digit handles = sortById handles := fun handles =>
    d.passes_eq Handle.id handles
  refine ⟨hpasses, ?_, ?_, fun _ _ => digits_lt_iff.symm, fun _ _ => digits_inj,
    s.ascends_sortFrom, s.ascends_sortSpan, s.ids_sortFrom, s.ids_sortSpan⟩
  · intro handles
    rw [hpasses]
    exact ascends_sortById handles
  · intro handles i
    rw [hpasses]
    exact Radix.filter_passesBelow Handle.id i Radix.levels handles

/-- Identifiers that differ in a high byte only, in a low byte only, and not at all. The passes
keep the order of the two handles of one identifier, and a sort by generation changes it. Neither
touches what was in the array before. -/
theorem orders_by_id_mixed :
    let handles : List Handle := [⟨65539, 1⟩, ⟨3, 9⟩, ⟨256, 0⟩, ⟨3, 2⟩]
    let sorted := DigitSort.byGeneration.sortFrom 1 (⟨70000, 0⟩ :: handles).toArray
    Radix.Distribution.buckets.passes digit handles = [⟨3, 9⟩, ⟨3, 2⟩, ⟨256, 0⟩, ⟨65539, 1⟩] ∧
      sorted.toList.take 1 = [⟨70000, 0⟩] ∧ Ascends handles (sorted.toList.drop 1) ∧
      sorted.toList.map Handle.id = [70000, 3, 3, 256, 65539] := by
  intro handles sorted
  have h := orders_by_id .buckets .byGeneration
  have happended := h.appended 1 (⟨70000, 0⟩ :: handles).toArray
  refine ⟨(h.passes_eq handles).trans (by decide +kernel), happended.1, happended.2, ?_⟩
  exact (h.ids_eq.1 1 _).trans (by decide +kernel)

end Handle

end Broadphase
