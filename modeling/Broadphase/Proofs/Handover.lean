import Mathlib
import Broadphase.Index
import Broadphase.Proofs.Handle.Radix

/-!
What queries hand over, told by a list. A query that hands over the elements of a
list to every receiver answers with that list, sorted if answers are to be. An array
takes every list behind what it has, and a buffer takes exactly the lists that are not
longer than itself, at its front.
-/

namespace Broadphase

/-- The step of a query hands over exactly the elements of a list. -/
def HandsOver (collects : (σ : Type) → [Sink σ] → σ → Except Halt σ) (es : List Handle) : Prop :=
  ∀ (σ : Type) [Sink σ] (out : σ), collects σ out = es.foldlM Sink.put out

theorem handsOver_nil : HandsOver (fun _ _ out => .ok out) [] := fun _ _ _ => rfl

theorem handsOver_putAll (es : Array Handle) :
    HandsOver (fun _ _ out => Sink.putAll out es) es.toList := by
  intro σ _ out
  rw [Array.foldlM_toList]
  exact Sink.putAll_eq out es

theorem HandsOver.append {first second : (σ : Type) → [Sink σ] → σ → Except Halt σ}
    {es es' : List Handle} (h : HandsOver first es) (h' : HandsOver second es') :
    HandsOver (fun σ _ out => first σ out >>= second σ) (es ++ es') := by
  intro σ _ out
  rw [List.foldlM_append, ← h]
  exact congrArg (first σ out >>= ·) (funext fun out => h' σ out)

theorem HandsOver.flatMap {α : Type} {items : List α} {found : α → List Handle}
    {collects : α → (σ : Type) → [Sink σ] → σ → Except Halt σ}
    (h : ∀ i ∈ items, HandsOver (collects i) (found i)) :
    HandsOver (fun σ _ out => items.foldlM (fun out i => collects i σ out) out)
      (items.flatMap found) := by
  induction items with
  | nil => exact handsOver_nil
  | cons i items ih =>
      intro σ _ out
      beta_reduce
      rw [List.foldlM_cons, List.flatMap_cons, List.foldlM_append, h i List.mem_cons_self]
      exact congrArg (_ >>= ·) (funext fun out =>
        ih (fun j hj => h j (List.mem_cons_of_mem i hj)) σ out)

theorem foldlM_put_array (es : List Handle) (out : Array Handle) :
    es.foldlM Sink.put out = Except.ok (out ++ es.toArray) := foldlM_push es out

namespace Span

variable {buffer : Array Handle}

/-- A buffer with the elements of a list at its front. -/
def filled (buffer : Array Handle) (es : List Handle) : Span :=
  ⟨(es ++ buffer.toList.drop es.length).toArray, es.length⟩

def Writer.filled (buffer : Array Handle) (es : List Handle) : Writer :=
  ⟨.filled buffer es, by simp [Span.filled]⟩

/-- A buffer takes the elements of a list if it has slots for all of them, one after the other
or all at once. -/
theorem foldlM_put_ofBuffer (es : List Handle) :
    es.foldlM Sink.put (ofBuffer buffer) =
      if es.length ≤ buffer.size then .ok (.filled buffer es) else .error .full := by
  refine ((ofBuffer buffer).putAll_eq_foldlM es).symm.trans ?_
  have hroom : (ofBuffer buffer).used + es.toArray.size ≤ (ofBuffer buffer).buffer.size ↔
      es.length ≤ buffer.size := by
    simp [ofBuffer]
  unfold Writer.putAll
  by_cases h : es.length ≤ buffer.size
  · rw [if_pos h, dif_pos (hroom.mpr h)]
    refine congrArg Except.ok (Writer.ext ?_ ?_)
    · rw [Writer.toList_copy]
      simp [ofBuffer, Writer.filled, filled]
    · simp [Writer.used_copy, ofBuffer, Writer.filled, filled]
  · rw [if_neg h, dif_neg (mt hroom.mp h)]

theorem sort_filled {sort : List Handle → List Handle} (hsort : ∀ es, (sort es).Perm es)
    (es : List Handle) : (filled buffer es).sort sort = filled buffer (sort es) := by
  have hlength := (hsort es).length_eq
  simp [Span.sort, filled, written, untouched, hlength]

end Span

section Forms

variable {ι : Type} [SpatialIndex ι] {index : ι} {region : Region} {es : List Handle}
  {sort : List Handle → List Handle}

theorem collect_array_of_handsOver
    (h : HandsOver (fun _ _ out => SpatialIndex.collect index region out) es)
    (seed : Array Handle) :
    SpatialIndex.collect index region seed = .ok (seed ++ es.toArray) :=
  (h (Array Handle) seed).trans (foldlM_put_array es seed)

theorem collect_buffer_of_handsOver
    (h : HandsOver (fun _ _ out => SpatialIndex.collect index region out) es)
    (buffer : Array Handle) :
    SpatialIndex.collect index region (Span.ofBuffer buffer) =
      if es.length ≤ buffer.size then .ok (.filled buffer es) else .error .full :=
  (h Span.Writer (Span.ofBuffer buffer)).trans (Span.foldlM_put_ofBuffer es)

theorem queryInto_of_handsOver
    (h : HandsOver (fun _ _ out => SpatialIndex.collect index region out) es)
    (seed : Array Handle) :
    SpatialIndex.queryInto index region seed sort =
      seed ++ (if SpatialIndex.isDeterministic index then sort es else es).toArray := by
  unfold SpatialIndex.queryInto
  rw [collect_array_of_handsOver h]
  cases SpatialIndex.isDeterministic index with
  | true => simp [SpatialIndex.sortFrom]
  | false => rfl

theorem query_of_handsOver
    (h : HandsOver (fun _ _ out => SpatialIndex.collect index region out) es) :
    SpatialIndex.query index region sort =
      if SpatialIndex.isDeterministic index then sort es else es := by
  rw [SpatialIndex.query, queryInto_of_handsOver h, Array.empty_append, List.toList_toArray]

theorem query_perm_of_handsOver (hsort : ∀ es, (sort es).Perm es)
    (h : HandsOver (fun _ _ out => SpatialIndex.collect index region out) es) :
    (SpatialIndex.query index region sort).Perm es := by
  rw [query_of_handsOver h]
  split_ifs
  · exact hsort es
  · exact List.Perm.refl es

theorem querySpan_of_handsOver (hsort : ∀ es, (sort es).Perm es)
    (h : HandsOver (fun _ _ out => SpatialIndex.collect index region out) es)
    (buffer : Array Handle) :
    SpatialIndex.querySpan index region buffer sort =
      if es.length ≤ buffer.size then
        some (es.length, (Span.filled buffer (SpatialIndex.query index region sort)).buffer)
      else none := by
  rw [SpatialIndex.querySpan, collect_buffer_of_handsOver h, query_of_handsOver h]
  by_cases hfits : es.length ≤ buffer.size
  · rw [if_pos hfits, if_pos hfits]
    cases SpatialIndex.isDeterministic index with
    | true =>
        simp only [Span.Writer.filled, Span.sort_filled hsort, if_true]
        simp only [Span.filled, (hsort es).length_eq]
    | false => rfl
  · rw [if_neg hfits, if_neg hfits]

/-- Two indices answer a query alike in each of its forms. -/
structure AnswerAlike {κ : Type} [SpatialIndex κ] (index : ι) (other : κ) (region : Region) :
    Prop where
  query_eq : SpatialIndex.query index region = SpatialIndex.query other region
  queryInto_eq : ∀ seed,
    SpatialIndex.queryInto index region seed = SpatialIndex.queryInto other region seed
  querySpan_eq : ∀ buffer,
    SpatialIndex.querySpan index region buffer = SpatialIndex.querySpan other region buffer

section Alike

variable {κ : Type} [SpatialIndex κ] {other : κ} {es' : List Handle}
  (h : HandsOver (fun _ _ out => SpatialIndex.collect index region out) es)
  (h' : HandsOver (fun _ _ out => SpatialIndex.collect other region out) es')

include h h'

theorem query_perm_of_perm (hsort : ∀ es, (sort es).Perm es) (hperm : es.Perm es') :
    (SpatialIndex.query index region sort).Perm (SpatialIndex.query other region sort) :=
  ((query_perm_of_handsOver hsort h).trans hperm).trans (query_perm_of_handsOver hsort h').symm

/-- The query by itself decides the other forms. -/
theorem answerAlike_of_query_eq
    (hquery : SpatialIndex.query index region = SpatialIndex.query other region) :
    AnswerAlike index other region := by
  have hlength : es.length = es'.length := by
    rw [← (query_perm_of_handsOver Handle.sort_perm h).length_eq, hquery,
      (query_perm_of_handsOver Handle.sort_perm h').length_eq]
  refine ⟨hquery, ?_, ?_⟩
  · intro seed
    rw [queryInto_of_handsOver h, queryInto_of_handsOver h', ← query_of_handsOver h, hquery,
      ← query_of_handsOver h']
  · intro buffer
    rw [querySpan_of_handsOver Handle.sort_perm h, querySpan_of_handsOver Handle.sort_perm h',
      hlength, hquery]

/-- Where answers are sorted, the order in which elements are handed over cannot be told
from them. -/
theorem answerAlike_of_perm (hsorted : SpatialIndex.isDeterministic index = true)
    (hsorted' : SpatialIndex.isDeterministic other = true) (hperm : es.Perm es') :
    AnswerAlike index other region := by
  apply answerAlike_of_query_eq h h'
  rw [query_of_handsOver h, query_of_handsOver h', if_pos hsorted, if_pos hsorted',
    Handle.sort_eq_of_perm hperm]

end Alike

end Forms

end Broadphase
