import Broadphase.Handle.Radix

/-!
Where the matches of a running query go. A query does not know whether its
matches are appended to a growing array or written into a buffer of fixed size;
it hands them over one by one or several at once and stops as soon as any are
refused.
-/

namespace Broadphase

/-- Why a query stops before its end. The last two cannot happen in an index
that keeps its own structure in order. -/
inductive Halt where
  /-- The receiver has no room left. -/
  | full
  /-- A link leads to a slot that does not exist. -/
  | brokenLink (slot : Nat)
  /-- A descent goes below the greatest depth. -/
  | tooDeep (slot : Nat)
  deriving DecidableEq, Repr

/-- A receiver of matches. What it makes of several at once is what it makes of one after
the other. -/
class Sink (σ : Type) where
  put : σ → Handle → Except Halt σ
  putAll : σ → Array Handle → Except Halt σ
  putAll_eq : ∀ out es, putAll out es = es.foldlM put out

theorem foldlM_push (es : List Handle) (out : Array Handle) :
    es.foldlM (fun out e => Except.ok (out.push e)) out =
      (Except.ok (out ++ es.toArray) : Except Halt (Array Handle)) := by
  induction es generalizing out with
  | nil => rw [Array.append_empty]; rfl
  | cons e es ih =>
      rw [List.foldlM_cons]
      refine (ih (out.push e)).trans (congrArg Except.ok ?_)
      apply Array.toList_inj.mp
      simp

/-- An array takes every match at its end. -/
instance : Sink (Array Handle) where
  put out e := .ok (out.push e)
  putAll out es := .ok (out ++ es)
  putAll_eq out es := by rw [← Array.foldlM_toList, foldlM_push, Array.toArray_toList]

/-- A buffer of fixed size while it is filled from its front. -/
structure Span where
  buffer : Array Handle
  used : Nat
  deriving DecidableEq, Repr

namespace Span

def written (s : Span) : Array Handle := s.buffer.take s.used

/-- The slots not reached yet, with what they held before. -/
def untouched (s : Span) : Array Handle := s.buffer.drop s.used

/-- Put the slots that have been written in order. -/
def sort (s : Span) (sort : List Handle → List Handle := Handle.sort) : Span :=
  { s with buffer := (sort s.written.toList).toArray ++ s.untouched }

/-- A span that has not gone beyond the end of its buffer. -/
structure Writer extends Span where
  inside : used ≤ buffer.size

def ofBuffer (buffer : Array Handle) : Writer := ⟨⟨buffer, 0⟩, Nat.zero_le _⟩

namespace Writer

/-- Write a match into the next slot, if there is one. -/
def put (w : Writer) (e : Handle) : Except Halt Writer :=
  if h : w.used < w.buffer.size then
    .ok ⟨⟨w.buffer.set w.used e h, w.used + 1⟩, by rw [Array.size_set]; exact h⟩
  else .error .full

/-- Copy matches into the next slots. -/
def copy (w : Writer) (es : Array Handle) (h : w.used + es.size ≤ w.buffer.size) : Writer :=
  ⟨⟨w.written ++ es ++ w.buffer.drop (w.used + es.size), w.used + es.size⟩, by
    simp only [written, Array.size_append, Array.size_extract, Array.take_eq_extract,
      Array.drop_eq_extract]
    omega⟩

/-- Copy matches into the next slots, if there are slots for all of them. -/
def putAll (w : Writer) (es : Array Handle) : Except Halt Writer :=
  if h : w.used + es.size ≤ w.buffer.size then .ok (w.copy es h) else .error .full

theorem ext {w w' : Writer} (hbuffer : w.buffer.toList = w'.buffer.toList)
    (hused : w.used = w'.used) : w = w' := by
  obtain ⟨⟨buffer, used⟩, _⟩ := w
  obtain ⟨⟨buffer', used'⟩, _⟩ := w'
  obtain rfl : used = used' := hused
  obtain rfl : buffer = buffer' := Array.toList_inj.mp hbuffer
  rfl

theorem toList_copy (w : Writer) (es : Array Handle) (h : w.used + es.size ≤ w.buffer.size) :
    (w.copy es h).buffer.toList =
      w.buffer.toList.take w.used ++ (es.toList ++ w.buffer.toList.drop (w.used + es.size)) := by
  simp [copy, written, List.take_of_length_le]

theorem size_copy (w : Writer) (es : Array Handle) (h : w.used + es.size ≤ w.buffer.size) :
    (w.copy es h).buffer.size = w.buffer.size := by
  rw [← Array.length_toList, toList_copy]
  simp
  omega

/-- One match is copied like several. -/
theorem put_eq_putAll (w : Writer) (e : Handle) : w.put e = w.putAll #[e] := by
  unfold put putAll
  by_cases hslot : w.used < w.buffer.size
  · rw [dif_pos hslot, dif_pos (show w.used + #[e].size ≤ w.buffer.size from hslot)]
    refine congrArg Except.ok (ext ?_ rfl)
    rw [toList_copy]
    simp [List.set_eq_take_append_cons_drop, hslot]
  · rw [dif_neg hslot, dif_neg (show ¬ w.used + #[e].size ≤ w.buffer.size from hslot)]

theorem putAll_nil (w : Writer) : w.putAll #[] = .ok w := by
  refine (dif_pos w.inside).trans (congrArg Except.ok (ext ?_ rfl))
  rw [toList_copy]
  simp

theorem used_copy (w : Writer) (es : Array Handle) (h : w.used + es.size ≤ w.buffer.size) :
    (w.copy es h).used = w.used + es.size := rfl

/-- Matches are copied in one go or in two. -/
theorem copy_append (w : Writer) (es es' : Array Handle) (h : w.used + es.size ≤ w.buffer.size)
    (h' : (w.copy es h).used + es'.size ≤ (w.copy es h).buffer.size)
    (hall : w.used + (es ++ es').size ≤ w.buffer.size) :
    w.copy (es ++ es') hall = (w.copy es h).copy es' h' := by
  apply ext
  · have hfront : (w.buffer.toList.take w.used).length = w.used := by
      rw [List.length_take, Array.length_toList, Nat.min_eq_left w.inside]
    have hused : (w.copy es h).used = (w.buffer.toList.take w.used).length + es.toList.length := by
      rw [used_copy, hfront, Array.length_toList]
    simp only [toList_copy, hused, Nat.add_assoc, List.take_length_add_append,
      List.drop_length_add_append]
    simp [Nat.add_assoc]
  · simp only [used_copy, Array.size_append, Nat.add_assoc]

theorem putAll_append (w : Writer) (es es' : Array Handle) :
    w.putAll (es ++ es') = w.putAll es >>= (putAll · es') := by
  have hsize : (es ++ es').size = es.size + es'.size := Array.size_append
  by_cases hfirst : w.used + es.size ≤ w.buffer.size
  · have hput : w.putAll es >>= (putAll · es') = (w.copy es hfirst).putAll es' := by
      rw [putAll, dif_pos hfirst]
      rfl
    have hroom : (w.copy es hfirst).used + es'.size ≤ (w.copy es hfirst).buffer.size ↔
        w.used + (es ++ es').size ≤ w.buffer.size := by
      rw [size_copy, used_copy, hsize, Nat.add_assoc]
    rw [hput, putAll, putAll]
    by_cases hall : w.used + (es ++ es').size ≤ w.buffer.size
    · rw [dif_pos hall, dif_pos (hroom.mpr hall), copy_append]
    · rw [dif_neg hall, dif_neg (mt hroom.mp hall)]
  · rw [putAll, putAll, dif_neg hfirst, dif_neg (by omega)]
    rfl

theorem putAll_eq_foldlM (w : Writer) (es : List Handle) :
    w.putAll es.toArray = es.foldlM put w := by
  induction es generalizing w with
  | nil => exact w.putAll_nil
  | cons e es ih =>
      have hfirst : (e :: es).toArray = #[e] ++ es.toArray := by simp
      rw [hfirst, putAll_append, ← put_eq_putAll, List.foldlM_cons]
      exact congrArg (w.put e >>= ·) (funext ih)

end Writer

/-- A writer takes matches as long as there are slots for them, and of several at once all or
none. -/
instance : Sink Writer where
  put := Writer.put
  putAll := Writer.putAll
  putAll_eq w es := by rw [← Array.foldlM_toList, ← w.putAll_eq_foldlM, Array.toArray_toList]

end Span

end Broadphase
